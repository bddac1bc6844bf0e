import RichText.Kind

/-!
Document trees. Every node carries a number, given in the order of creation: the root is 0, and a
node appended to a tree of `n` nodes is number `n`.
-/
namespace RichText

/-- What a node holds, its children apart. The level is that of a heading, a list or a list item,
and the number is that of a list item; both are zero elsewhere. -/
structure Node where
  kind : Kind
  content : String := ""
  url : Option String := none
  objectId : Option String := none
  level : Nat := 0
  number : Nat := 0
  deriving DecidableEq, Repr

inductive Tree where
  | node (id : Nat) (data : Node) (children : List Tree)

/-- A node without children. -/
abbrev Tree.leaf (id : Nat) (data : Node) : Tree := .node id data []

namespace Tree

def id : Tree → Nat
  | node i _ _ => i

def data : Tree → Node
  | node _ d _ => d

def children : Tree → List Tree
  | node _ _ ts => ts

def kind (t : Tree) : Kind := t.data.kind

@[simp] theorem id_node (i : Nat) (d : Node) (ts : List Tree) : (node i d ts).id = i := rfl
@[simp] theorem data_node (i : Nat) (d : Node) (ts : List Tree) : (node i d ts).data = d := rfl
@[simp] theorem children_node (i : Nat) (d : Node) (ts : List Tree) :
    (node i d ts).children = ts := rfl
@[simp] theorem kind_node (i : Nat) (d : Node) (ts : List Tree) : (node i d ts).kind = d.kind := rfl

mutual
/-- The number of nodes. -/
def size : Tree → Nat
  | node _ _ ts => sizeAll ts + 1
def sizeAll : List Tree → Nat
  | [] => 0
  | t :: ts => size t + sizeAll ts
end

theorem sizeAll_append (ts us : List Tree) : sizeAll (ts ++ us) = sizeAll ts + sizeAll us := by
  induction ts with
  | nil => simp [sizeAll]
  | cons t ts ih => simp [sizeAll, ih, Nat.add_assoc]

mutual
/-- The subtrees, each before those below it, siblings in order. -/
def preorder : Tree → List Tree
  | node i d ts => node i d ts :: preorderAll ts
def preorderAll : List Tree → List Tree
  | [] => []
  | t :: ts => preorder t ++ preorderAll ts
end

mutual
theorem length_preorder : ∀ t : Tree, t.preorder.length = t.size
  | node _ _ ts => by simp [preorder, size, length_preorderAll ts]
theorem length_preorderAll : ∀ ts : List Tree, (preorderAll ts).length = sizeAll ts
  | [] => rfl
  | t :: ts => by simp [preorderAll, sizeAll, length_preorder t, length_preorderAll ts]
end

/-- The numbers of all nodes, a node before those below it. -/
def ids (t : Tree) : List Nat := t.preorder.map id

mutual
/-- Adds `new` as the last child of every node of that number. -/
def addUnder (parent : Nat) (new : Tree) : Tree → Tree
  | node i d ts => node i d (addUnderAll parent new ts ++ if i = parent then [new] else [])
def addUnderAll (parent : Nat) (new : Tree) : List Tree → List Tree
  | [] => []
  | t :: ts => addUnder parent new t :: addUnderAll parent new ts
end

/-- A tree with nothing but its root. -/
def empty : Tree := leaf 0 { kind := .document }

/-- Appends a node under the node of that number. -/
def append (t : Tree) (parent : Nat) (data : Node) : Tree := addUnder parent (leaf t.size data) t

/-- A node in its place: what stands above it, the nearest first, and what hangs from it. -/
structure Place where
  above : List (Nat × Node)
  subtree : Tree

mutual
/-- The first node of that number below the nodes `above`. -/
def locateBelow? (id : Nat) (above : List (Nat × Node)) : Tree → Option Place
  | node i d ts =>
    if i = id then some ⟨above, node i d ts⟩ else locateAmong? id ((i, d) :: above) ts
def locateAmong? (id : Nat) (above : List (Nat × Node)) : List Tree → Option Place
  | [] => none
  | t :: ts => (locateBelow? id above t).or (locateAmong? id above ts)
end

/-- The place of the node of that number. -/
def locate? (t : Tree) (id : Nat) : Option Place := t.locateBelow? id []

/-- The subtree at the node of that number. -/
def get? (t : Tree) (id : Nat) : Option Tree := (t.locate? id).map Place.subtree

/-- The numbers of the strict ancestors, the nearest first. -/
def ancestors (t : Tree) (id : Nat) : List Nat :=
  match t.locate? id with
  | some p => p.above.map Prod.fst
  | none => []

def parent? (t : Tree) (id : Nat) : Option Nat := (t.ancestors id).head?

/-- The numbers of the node and all nodes below it, a node before those below it. -/
def descendants (t : Tree) (id : Nat) : List Nat :=
  match t.get? id with
  | some s => s.ids
  | none => []

/-- Whether the parent exists and is of the same kind. -/
def Place.nested (p : Place) : Bool := p.above.head?.any fun parent => parent.2.kind = p.subtree.kind

end Tree

end RichText
