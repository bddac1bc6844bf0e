import RichText.Registry
import RichText.Tree.OfBlocks

/-!
Converting documents: to a tree, from a tree to a format, and both in one step. The format is
looked up before the document is read into a tree.
-/
namespace RichText

/-- The text of a tree in a standard format. -/
def render (format : String) (tree : Tree) (files : Manifest) : Except Error String :=
  Registry.standard.render format files tree

/-- The text of a document in a standard format. -/
def convert (format : String) (d : Document) (files : Manifest) : Except Error String := do
  let _ ← Registry.standard.get format
  let tree ← d.tree {}
  Registry.standard.render format files tree

/-- A conversion with options. -/
structure Converter where
  format : String := "md"
  options : Options := {}
  deriving DecidableEq, Repr

namespace Converter

def tree (c : Converter) (d : Document) : Except Error Tree := d.tree c.options

def render (c : Converter) (tree : Tree) (files : Manifest) : Except Error String :=
  RichText.render c.format tree files

def convert (c : Converter) (d : Document) (files : Manifest) : Except Error String := do
  let _ ← Registry.standard.get c.format
  let tree ← c.tree d
  c.render tree files

end Converter

end RichText
