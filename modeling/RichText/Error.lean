import RichText.Kind
import RichText.Text.Quoted

/-!
What can go wrong between a JSON text and the finished output, by cause.
-/
namespace RichText

inductive Error where
  /-- A text is not JSON, or not of the expected form. -/
  | json
  /-- No format has that key. -/
  | unknownFormat (key : String)
  /-- A rule table lacks the rule for a kind of node. -/
  | missingRule (table : String) (kind : Kind)
  /-- A paragraph belongs to a list that is not in the catalog. -/
  | undefinedList (list : String)
  /-- A paragraph stands at a level that its list does not have. -/
  | undefinedLevel (list : String) (level : UInt32)
  /-- A file is known for an object, and the rule of its node cannot show files. -/
  | noFileMapping (table : String) (kind : Kind)
  deriving DecidableEq, Repr

namespace Error

def message : Error → String
  | json => "JSON error"
  | unknownFormat key => quoted key ++ " is an invalid format (known formats: md, html, txt)"
  | missingRule table kind =>
    "rule table " ++ quoted table ++ " has no rule for node kind " ++ kind.name
  | undefinedList list =>
    "Malformed document: paragraph references undefined list " ++ quoted list
  | undefinedLevel list level =>
    "Malformed document: list " ++ quoted list ++ " has no nesting level " ++
      toString level.toNat
  | noFileMapping table kind =>
    "Rendering error: format " ++ quoted table ++ " has no file mapping for " ++ kind.name ++
      " nodes"

end Error

end RichText
