/-!
A body as a sequence of blocks: what each paragraph or table is, with its list membership and its
number in the list settled, and before anything is nested.
-/
namespace RichText

/-- A piece of a line: text in a style, or an image. -/
inductive Inline where
  | text (bold italic : Bool) (url : Option String) (content : String)
  | image (objectId : String)
  deriving DecidableEq, Repr

/-- A list item at a depth counted from one. -/
structure ListItem where
  ordered : Bool
  depth : Nat
  number : Nat
  inlines : List Inline
  deriving DecidableEq, Repr

inductive Block where
  | paragraph (inlines : List Inline)
  | heading (level : Nat) (inlines : List Inline)
  | code (content : String)
  | item (i : ListItem)
  | table (rows : List (List (List Block)))

end RichText
