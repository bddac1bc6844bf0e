import RichText.Format.Basic

/-!
The plain text format, which escapes nothing.
-/
namespace RichText.PlainText

def link (url text : List Char) : List Char := text ++ " <".toList ++ url ++ ['>']

def image (f : AssetFile) : List Char := "[image: ".toList ++ f.name.toList ++ [']']

def unorderedItem (depth : Nat) (text : List Char) : List Char :=
  indentation "  " depth ++ "- ".toList ++ text

def orderedItem (depth : Nat) (text : List Char) : List Char := indentation "  " depth ++ text

/-- Ends code with an empty line. -/
def closeCode (text : List Char) : List Char := dropEndWhile (· = '\n') text ++ "\n\n".toList

/-- Ends a row, without the tabs of the empty cells at its end. -/
def closeRow (text : List Char) : List Char := dropEndWhile (· = '\t') text ++ ['\n']

def rule : Kind → Rule
  | .document => { requiresContent := true, after := finishDocument }
  | .plain => { wrapping := .unlessNested, leftPad := true }
  | .bold => Rule.span
  | .italic => Rule.span
  | .link => { leftPad := true, link }
  | .code => { raw := true, requiresContent := true, after := closeCode }
  | .paragraph => Rule.block.enclosed "" "\n\n"
  | .heading => Rule.block.enclosed "" "\n\n"
  | .image => { file := some image }
  | .unorderedList => Rule.list
  | .orderedList => Rule.list
  | .unorderedItem => { Rule.block.enclosed "" "\n" with byLevel := unorderedItem }
  | .orderedItem =>
    { Rule.block.enclosed "" "\n" with byNumber := itemNumber, byLevel := orderedItem }
  | .table => Rule.enclosed {} "" "\n"
  | .tableRow => { after := closeRow }
  | .tableCell => Rule.enclosed { trimInside := true } "" "\t"

def table : RuleTable := ⟨"txt", fun kind => some (rule kind)⟩

end RichText.PlainText
