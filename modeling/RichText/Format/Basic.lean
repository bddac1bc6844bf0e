import RichText.Rule
import RichText.Text.Blank

/-!
Rules and texts that several formats share.
-/
namespace RichText

namespace Rule

/-- The rule with a text written on each side. -/
def enclosed (rule : Rule) (before after : String) : Rule :=
  { rule with before := (before.toList ++ ·), after := (· ++ after.toList) }

/-- Spans inside a line. A span in a span of its kind is not wrapped again. -/
def span : Rule :=
  { wrapping := .unlessNested, leftPad := true, trimInside := true, requiresContent := true }

/-- Blocks of text. -/
def block : Rule := { trimInside := true, requiresContent := true }

/-- Lists of lines. A list nested in a list of its kind adds nothing to its items. -/
def list : Rule := enclosed { wrapping := .unlessNested, requiresContent := true } "" "\n"

end Rule

/-- Drops empty lines at the start and blanks at the end, and ends the last line. Blanks at the
start of the first line stay, since they may be the indentation of a nested item. -/
def finishDocument (body : List Char) : List Char :=
  match trimEnd (body.dropWhile (· = '\n')) with
  | [] => []
  | c :: cs => c :: cs ++ ['\n']

/-- The indentation of a depth counted from one. -/
def indentation (unit : String) (depth : Nat) : List Char :=
  (List.replicate (depth - 1) unit.toList).flatten

/-- The number in front of an ordered item. -/
def itemNumber (number : Nat) (text : List Char) : List Char :=
  Nat.toDigits 10 number ++ ". ".toList ++ text

end RichText
