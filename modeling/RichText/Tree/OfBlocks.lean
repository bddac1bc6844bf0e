import RichText.Block.OfDocument
import RichText.Tree.Basic

/-!
The tree of a document. Blocks are placed one after the other under the same parent: code joins
the code before it, and a list item joins the list before it. A list opens at the depth of its
first item; deeper items go into containers nested one level at a time, and shallower items stay
in the outermost container. New nodes are numbered from the number that is free.
-/
namespace RichText

namespace Tree

/-- A chain of nodes, each the only child of the one before it, with a tree at its end. -/
def chain (last : Nat → Tree) (id : Nat) : List Node → Tree
  | [] => last id
  | d :: ds => node id d [chain last (id + 1) ds]

end Tree

open RichText.Tree

namespace Inline

/-- The spans around a text, the outermost first. -/
def spans (bold italic : Bool) (url : Option String) : List Node :=
  (if bold then [{ kind := .bold }] else []) ++
  (if italic then [{ kind := .italic }] else []) ++
  (url.map fun url => { kind := .link, url := some url : Node }).toList

def tree (id : Nat) : Inline → Tree
  | text bold italic url content =>
    chain (fun id => leaf id { kind := .plain, content }) id (spans bold italic url)
  | image objectId => leaf id { kind := .image, objectId := some objectId }

def trees (id : Nat) : List Inline → List Tree
  | [] => []
  | i :: is => i.tree id :: trees (id + (i.tree id).size) is

end Inline

namespace ListItem

def listKind (i : ListItem) : Kind := if i.ordered then .orderedList else .unorderedList

def itemKind (i : ListItem) : Kind := if i.ordered then .orderedItem else .unorderedItem

def tree (i : ListItem) (id : Nat) : Tree :=
  node id { kind := i.itemKind, level := i.depth, number := i.number }
    (Inline.trees (id + 1) i.inlines)

/-- New containers from a level down to the depth of the item, and the item in the innermost. -/
def newList (i : ListItem) (id level : Nat) : Tree :=
  chain i.tree id ((List.range' level (i.depth + 1 - level)).map fun level =>
    { kind := i.listKind, level })

mutual
/-- Puts the item into a container, or into the containers nested last in it if it is deeper. -/
def insert (i : ListItem) (id : Nat) : Tree → Tree
  | node n d ts =>
    if d.level < i.depth then node n d (i.place id (d.level + 1) ts)
    else node n d (ts ++ [i.tree id])
/-- Puts the item into the last tree if that is a container of its kind, and into a new container
of the given level otherwise. -/
def place (i : ListItem) (id level : Nat) : List Tree → List Tree
  | [] => [i.newList id level]
  | [t] => if t.kind = i.listKind then [i.insert id t] else [t, i.newList id level]
  | t :: u :: ts => t :: i.place id level (u :: ts)
end

end ListItem

namespace Block

/-- Joins code to the last tree if that is code, and begins new code otherwise. -/
def placeCode (content : String) (id : Nat) : List Tree → List Tree
  | [] => [leaf id { kind := .code, content }]
  | [node n d ts] =>
    if d.kind = .code then [node n { d with content := d.content ++ content } ts]
    else [node n d ts, leaf id { kind := .code, content }]
  | t :: u :: ts => t :: placeCode content id (u :: ts)

mutual
/-- Places a block after the trees before it; the first new node gets the number `id`. -/
def place (id : Nat) (before : List Tree) : Block → List Tree
  | .paragraph is => before ++ [node id { kind := .paragraph } (Inline.trees (id + 1) is)]
  | .heading level is => before ++ [node id { kind := .heading, level } (Inline.trees (id + 1) is)]
  | .code content => placeCode content id before
  | .item i => i.place id i.depth before
  | .table rows => before ++ [node id { kind := .table } (placeRows (id + 1) [] rows)]
/-- Places blocks under a parent, whose first child has the number `first`. -/
def placeAll (first : Nat) (before : List Tree) : List Block → List Tree
  | [] => before
  | b :: bs => placeAll first (place (first + sizeAll before) before b) bs
def placeRows (first : Nat) (before : List Tree) : List (List (List Block)) → List Tree
  | [] => before
  | row :: rows =>
    let id := first + sizeAll before
    placeRows first (before ++ [node id { kind := .tableRow } (placeCells (id + 1) [] row)]) rows
def placeCells (first : Nat) (before : List Tree) : List (List Block) → List Tree
  | [] => before
  | cell :: cells =>
    let id := first + sizeAll before
    placeCells first (before ++ [node id { kind := .tableCell } (placeAll (id + 1) [] cell)]) cells
end

end Block

/-- The tree of a body. -/
def Tree.ofBlocks (bs : List Block) : Tree := node 0 { kind := .document } (Block.placeAll 1 [] bs)

/-- The tree of a document. -/
def Document.tree (d : Document) (o : Options) : Except Error Tree :=
  (d.blocks o).map Tree.ofBlocks

end RichText
