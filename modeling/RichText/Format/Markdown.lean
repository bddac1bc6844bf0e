import RichText.Format.Html
import RichText.Text.Digit

/-!
The Markdown format. Tables and images are written as HTML elements.
-/
namespace RichText.Markdown

/-- Escapes what has a meaning anywhere in a line. -/
def escapeChar (c : Char) : List Char :=
  if c = '\\' ∨ c = '\x60' ∨ c = '*' ∨ c = '_' ∨ c = '[' ∨ c = ']' then ['\\', c]
  else if c = '&' then "&amp;".toList
  else if c = '<' then "&lt;".toList
  else if c = '>' then "&gt;".toList
  else [c]

/-- Where in a line a character stands. -/
inductive Column where
  /-- At the start. -/
  | first
  /-- After digits that begin the line. -/
  | afterDigits
  | later
  deriving DecidableEq, Repr

/-- Escapes a character in its column: a sharp that would open a heading, and a point that would
make an ordered item of the digits before it. -/
def escapeIn (column : Column) (c : Char) : List Char :=
  if column = .first ∧ c = '#' ∨ column = .afterDigits ∧ c = '.' then ['\\', c] else escapeChar c

/-- The column after a character. -/
def Column.next (column : Column) (c : Char) : Column :=
  if c = '\n' then .first
  else if column ≠ .later ∧ isDecimalDigit c then .afterDigits
  else .later

def escapeFrom (column : Column) : List Char → List Char
  | [] => []
  | c :: cs => escapeIn column c ++ escapeFrom (column.next c) cs

def escape (text : List Char) : List Char := escapeFrom .first text

def link (url text : List Char) : List Char := '[' :: text ++ "](".toList ++ url ++ [')']

def openCode (text : List Char) : List Char :=
  if '\n' ∈ text then "```\n".toList ++ text else '\x60' :: text

def closeCode (text : List Char) : List Char :=
  if '\n' ∈ text then dropEndWhile (· = '\n') text ++ "\n```\n\n".toList else text ++ ['\x60']

def heading (level : Nat) (text : List Char) : List Char :=
  List.replicate level '#' ++ ' ' :: text

def unorderedItem (depth : Nat) (text : List Char) : List Char :=
  indentation "  " depth ++ "* ".toList ++ text

def orderedItem (depth : Nat) (text : List Char) : List Char := indentation "   " depth ++ text

def rule : Kind → Rule
  | .document => { requiresContent := true, after := finishDocument }
  | .plain => { wrapping := .unlessNested, leftPad := true, escape }
  | .bold => Rule.span.enclosed "**" "**"
  | .italic => Rule.span.enclosed "_" "_"
  | .link => { leftPad := true, trimInside := true, link }
  | .code => { raw := true, requiresContent := true, before := openCode, after := closeCode }
  | .paragraph => Rule.block.enclosed "" "\n\n"
  | .heading => { Rule.block.enclosed "" "\n" with byLevel := heading }
  | .image => { file := some Html.imageTag }
  | .unorderedList => Rule.list
  | .orderedList => Rule.list
  | .unorderedItem => { Rule.block.enclosed "" "\n" with byLevel := unorderedItem }
  | .orderedItem =>
    { Rule.block.enclosed "" "\n" with byNumber := itemNumber, byLevel := orderedItem }
  | .table => Rule.enclosed {} "<table>" "</table>\n\n"
  | .tableRow => Rule.enclosed {} "<tr>" "</tr>"
  | .tableCell => Rule.enclosed { trimInside := true } "<td>" "</td>"

def table : RuleTable := ⟨"md", fun kind => some (rule kind)⟩

end RichText.Markdown
