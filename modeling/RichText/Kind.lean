import RichText.Json.Decode

/-!
The kinds of nodes in a document tree, and their names.
-/
namespace RichText

inductive Kind where
  | plain | bold | italic | link | code | paragraph | heading | image
  | unorderedList | orderedList | unorderedItem | orderedItem
  | table | tableRow | tableCell | document
  deriving DecidableEq, Repr

namespace Kind

def all : List Kind :=
  [plain, bold, italic, link, code, paragraph, heading, image, unorderedList, orderedList,
   unorderedItem, orderedItem, table, tableRow, tableCell, document]

@[simp] theorem mem_all (k : Kind) : k ∈ all := by cases k <;> decide

def name : Kind → String
  | plain => "plain"
  | bold => "bold"
  | italic => "italic"
  | link => "link"
  | code => "code"
  | paragraph => "paragraph"
  | heading => "heading"
  | image => "image"
  | unorderedList => "unordered_list"
  | orderedList => "ordered_list"
  | unorderedItem => "unordered_item"
  | orderedItem => "ordered_item"
  | table => "table"
  | tableRow => "table_row"
  | tableCell => "table_cell"
  | document => "document"

def ofName? (s : String) : Option Kind := all.find? (·.name = s)

@[simp] theorem ofName?_name (k : Kind) : ofName? k.name = some k := by cases k <;> rfl

/-- The position in the list of all kinds. -/
def index (k : Kind) : Nat := all.idxOf k

def isList : Kind → Bool
  | unorderedList | orderedList => true
  | _ => false

def isItem : Kind → Bool
  | unorderedItem | orderedItem => true
  | _ => false

def decode : Json.Decoder Kind := .choice ofName?

end Kind

end RichText
