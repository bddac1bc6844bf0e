import RichText.Document.Build
import RichText.Proofs.Tree.Placing

/-!
Bodies in table cells. Where the numbers begin makes no difference to the placing of blocks but for
the numbers, and a bullet does not ask where it stands. So what a body becomes inside a table cell,
and inside tables in tables, is what it becomes by itself.
-/
namespace RichText

namespace Tree
variable {k : Nat}

mutual
/-- The tree with all numbers raised by `k`. -/
def raised (k : Nat) : Tree → Tree
  | node i d ts => node (i + k) d (raisedAll k ts)
def raisedAll (k : Nat) : List Tree → List Tree
  | [] => []
  | t :: ts => raised k t :: raisedAll k ts
end

theorem raised_node (i : Nat) (d : Node) (ts : List Tree) :
    (node i d ts).raised k = node (i + k) d (ts.map (raised k)) := by
  have hall : raisedAll k ts = ts.map (raised k) := by
    induction ts with
    | nil => rfl
    | cons t ts ih => rw [raisedAll, ih, List.map_cons]
  rw [raised, hall]

@[simp] theorem kind_raised (t : Tree) : (t.raised k).kind = t.kind := by
  cases t
  rfl

mutual
@[simp] theorem size_raised : ∀ t : Tree, (t.raised k).size = t.size
  | node i d ts => by rw [raised_node, size, size, sizeAll_raised ts]
@[simp] theorem sizeAll_raised : ∀ ts : List Tree, sizeAll (ts.map (raised k)) = sizeAll ts
  | [] => rfl
  | t :: ts => by rw [List.map_cons, sizeAll, sizeAll, size_raised t, sizeAll_raised ts]
end

theorem raised_chain {last : Nat → Tree} (h : ∀ id, (last id).raised k = last (id + k)) (id : Nat)
    (ds : List Node) : (chain last id ds).raised k = chain last (id + k) ds := by
  induction ds generalizing id with
  | nil => exact h id
  | cons d ds ih =>
    rw [chain, chain, raised_node, List.map_singleton, ih, Nat.add_right_comm]

theorem raised_leaf (id : Nat) (d : Node) : (leaf id d).raised k = leaf (id + k) d := rfl

end Tree

open RichText.Tree

section
variable {k : Nat}

theorem Inline.raised_tree (id : Nat) (i : Inline) : (i.tree id).raised k = i.tree (id + k) := by
  cases i with
  | text bold italic url content => exact raised_chain (fun _ => raised_leaf _ _) id _
  | image objectId => exact raised_leaf id _

theorem Inline.map_raised_trees (id : Nat) (is : List Inline) :
    (Inline.trees id is).map (raised k) = Inline.trees (id + k) is := by
  induction is generalizing id with
  | nil => rfl
  | cons i is ih =>
    have hsize : (i.tree (id + k)).size = (i.tree id).size := by
      rw [← raised_tree, size_raised]
    rw [trees, trees, List.map_cons, raised_tree, ih, hsize, Nat.add_right_comm]

theorem Tree.raised_line (id : Nat) (d : Node) (is : List Inline) :
    (node id d (Inline.trees (id + 1) is)).raised k =
      node (id + k) d (Inline.trees (id + k + 1) is) := by
  rw [raised_node, Inline.map_raised_trees, Nat.add_right_comm]

namespace ListItem

theorem raised_tree (i : ListItem) (id : Nat) : (i.tree id).raised k = i.tree (id + k) :=
  raised_line id _ _

theorem raised_newList (i : ListItem) (id level : Nat) :
    (i.newList id level).raised k = i.newList (id + k) level :=
  raised_chain i.raised_tree id _

theorem map_raised_place_of (i : ListItem) (id level : Nat) (ts : List Tree)
    (h : ∀ t ∈ ts, (i.insert id t).raised k = i.insert (id + k) (t.raised k)) :
    (i.place id level ts).map (raised k) = i.place (id + k) level (ts.map (raised k)) := by
  rcases List.eq_nil_or_concat ts with rfl | ⟨us, t, rfl⟩
  · rw [place, List.map_singleton, raised_newList, List.map_nil, place]
  · rw [List.concat_eq_append] at h ⊢
    rw [List.map_append, List.map_singleton, place_concat, place_concat, kind_raised,
      List.map_append, ← h t (by simp), ← raised_newList]
    split <;> rfl

theorem raised_insert (i : ListItem) (id : Nat) (t : Tree) :
    (i.insert id t).raised k = i.insert (id + k) (t.raised k) := by
  induction t with
  | node n d ts ih =>
    have hplace := map_raised_place_of i id (d.level + 1) ts ih
    rw [raised_node, insert, insert]
    split
    · rw [raised_node, hplace]
    · rw [raised_node, List.map_append, List.map_singleton, raised_tree]

theorem map_raised_place (i : ListItem) (id level : Nat) (ts : List Tree) :
    (i.place id level ts).map (raised k) = i.place (id + k) level (ts.map (raised k)) :=
  map_raised_place_of i id level ts fun t _ => i.raised_insert id t

end ListItem

namespace Block

theorem map_raised_placeCode (content : String) (id : Nat) (ts : List Tree) :
    (placeCode content id ts).map (raised k) = placeCode content (id + k) (ts.map (raised k)) := by
  rcases List.eq_nil_or_concat ts with rfl | ⟨us, ⟨n, d, vs⟩, rfl⟩
  · rfl
  · rw [List.concat_eq_append, List.map_append, List.map_singleton, raised_node, placeCode_concat,
      placeCode_concat, List.map_append]
    split
    · rw [List.map_singleton, raised_node]
    · rw [List.map_cons, List.map_singleton, raised_node, raised_leaf]

mutual
theorem map_raised_place : ∀ (b : Block) (n : Nat) (ts : List Tree),
    (b.place n ts).map (raised k) = b.place (n + k) (ts.map (raised k))
  | .paragraph is, n, ts => by
    rw [place, place, List.map_append, List.map_singleton, raised_line]
  | .heading level is, n, ts => by
    rw [place, place, List.map_append, List.map_singleton, raised_line]
  | .code content, n, ts => map_raised_placeCode content n ts
  | .item i, n, ts => i.map_raised_place n i.depth ts
  | .table rows, n, ts => by
    rw [place, place, List.map_append, List.map_singleton, raised_node,
      map_raised_placeRows rows, Nat.add_right_comm]
    rfl
/-- Blocks are placed in the same way whatever number is the first. -/
theorem map_raised_placeAll : ∀ (bs : List Block) (first : Nat) (ts : List Tree),
    (placeAll first ts bs).map (raised k) = placeAll (first + k) (ts.map (raised k)) bs
  | [], _, _ => rfl
  | b :: bs, first, ts => by
    rw [placeAll, placeAll, map_raised_placeAll bs, map_raised_place b, sizeAll_raised,
      Nat.add_right_comm]
theorem map_raised_placeRows : ∀ (rows : List (List (List Block))) (first : Nat) (ts : List Tree),
    (placeRows first ts rows).map (raised k) = placeRows (first + k) (ts.map (raised k)) rows
  | [], _, _ => rfl
  | row :: rows, first, ts => by
    rw [placeRows, placeRows, map_raised_placeRows rows, List.map_append, List.map_singleton,
      raised_node, map_raised_placeCells row, sizeAll_raised, Nat.add_right_comm _ 1 k,
      Nat.add_right_comm first]
    rfl
theorem map_raised_placeCells : ∀ (cells : List (List Block)) (first : Nat) (ts : List Tree),
    (placeCells first ts cells).map (raised k) = placeCells (first + k) (ts.map (raised k)) cells
  | [], _, _ => rfl
  | cell :: cells, first, ts => by
    rw [placeCells, placeCells, map_raised_placeCells cells, List.map_append, List.map_singleton,
      raised_node, map_raised_placeAll cell, sizeAll_raised, Nat.add_right_comm _ 1 k,
      Nat.add_right_comm first]
    rfl
end

end Block
end

/-- A body in tables of one cell, so many of them inside each other. Where they stand and what
counts they declare is of no account. -/
inductive Element.Boxed (es : List Element) : Nat → List Element → Prop
  | body : Boxed es 0 es
  | table {n : Nat} {fs : List Element} (start stop : Int64) (rows columns : UInt32)
      (h : Boxed es n fs) : Boxed es (n + 1) [mk start stop none (some ⟨rows, columns, [[fs]]⟩)]

/-- From the first tree one comes to the second through so many tables, each of them alone where it
stands and of one cell. -/
inductive Tree.Boxes : Nat → Tree → Tree → Prop
  | here (t : Tree) : Boxes 0 t t
  | table {n i j m : Nat} {d : Node} {cell s : Tree} (hcell : cell.kind = .tableCell)
      (h : Boxes n cell s) :
      Boxes (n + 1) (node i d [node j { kind := .table } [node m { kind := .tableRow } [cell]]]) s

namespace Block

/-- Blocks in tables of one cell, so many of them inside each other. -/
def boxed (bs : List Block) : Nat → List Block
  | 0 => bs
  | n + 1 => [.table [[boxed bs n]]]

/-- Reading a body in tables comes to what reading the body comes to. -/
theorem ofElements_boxed {es fs : List Element} {n : Nat} (h : Element.Boxed es n fs) (o : Options)
    (lists : Catalog ListStyle) (seen : List Bullet) :
    ofElements o lists seen fs =
      (ofElements o lists seen es).map fun r => (boxed r.1 n, r.2) := by
  induction h with
  | body => cases ofElements o lists seen es <;> rfl
  | table start stop rows columns h ih =>
    simp only [ofElements, ofElement, ofParagraph?, ofRows, ofCells, bind, Except.bind, pure,
      Except.pure, ih]
    cases ofElements o lists seen es <;> rfl

/-- What is in the innermost cell was placed as it is below a root, but for the numbers. -/
theorem exists_boxes (bs : List Block) (n i : Nat) (d : Node) :
    ∃ s, Tree.Boxes n (node i d (placeAll (i + 1) [] (boxed bs n))) s ∧
      s.children = (placeAll 1 [] bs).map (raised (i + 3 * n)) := by
  induction n generalizing i d with
  | zero =>
    refine ⟨_, .here _, ?_⟩
    have hk : i + 3 * 0 = i := by omega
    rw [hk, map_raised_placeAll, Nat.add_comm 1 i]
    rfl
  | succ n ih =>
    obtain ⟨s, hs, hchildren⟩ := ih (i + 3) { kind := .tableCell }
    have hcell : (node (i + 3) { kind := .tableCell }
        (placeAll (i + 3 + 1) [] (boxed bs n))).kind = .tableCell := rfl
    refine ⟨s, ?_, ?_⟩
    · exact .table hcell hs
    · rw [hchildren]
      congr 2
      omega

end Block

/-- A body in tables of one cell is read as it is by itself, with the same error if there is one.
The trees in the innermost cell are then those below the root of the tree of the body, with their
nodes in the same order and the numbers alone changed, each of them by the same. -/
theorem Document.tree_of_boxed {d d' : Document} {n : Nat} (hbody : Element.Boxed d.body n d'.body)
    (hlists : d'.lists = d.lists) (o : Options) :
    (∀ e, d'.tree o = .error e ↔ d.tree o = .error e) ∧
      ∀ t, d.tree o = .ok t → ∃ t' s, d'.tree o = .ok t' ∧ Tree.Boxes n t' s ∧
        s.children = t.children.map (Tree.raised (3 * n)) := by
  have hread := Block.ofElements_boxed hbody o d.lists []
  rw [tree, tree, blocks, blocks, hlists, hread]
  cases Block.ofElements o d.lists [] d.body with
  | error e => exact ⟨fun _ => Iff.rfl, fun t ht => by cases ht⟩
  | ok r =>
    refine ⟨fun e => ?_, fun t ht => ?_⟩
    · constructor <;> (intro he; cases he)
    · obtain rfl := Except.ok.inj ht
      obtain ⟨s, hs, hchildren⟩ := Block.exists_boxes r.1 n 0 { kind := .document }
      rw [Nat.zero_add] at hchildren
      exact ⟨_, s, rfl, hs, hchildren⟩

/-- A list with a list in it, code in two parts, and an item behind a table. -/
def Document.assorted : Document :=
  (({} : Document).addList "n" .numbered)
    |>.addParagraph (.bulleted "n" 0 "a")
    |>.addParagraph (.bulleted "n" 1 "b")
    |>.addParagraph (.addRun {} (.inFont "x" "Consolas"))
    |>.addParagraph (.addRun {} (.inFont "y" "Consolas"))
    |>.addTable (.addRow {} [[.ofParagraph (.bulleted "n" 0 "c")], []])
    |>.addParagraph (.bulleted "n" 0 "d")

/-- The same in a table in a table, with counts that are not theirs. -/
def Document.assortedInCells : Document :=
  { assorted with
    body := [.mk 5 2 none (some ⟨7, 0, [[[.ofTable (.addRow {} [assorted.body])]]]⟩)] }

theorem Document.tree_of_boxed_assorted :
    ∃ t t' s, assorted.tree {} = .ok t ∧ assortedInCells.tree {} = .ok t' ∧ Tree.Boxes 2 t' s ∧
      s.children = t.children.map (Tree.raised 6) ∧
      t.children.map Tree.id = [1, 7, 8, 15] ∧ s.children.map Tree.id = [7, 13, 14, 21] := by
  have hboxed : Element.Boxed assorted.body 2 assortedInCells.body :=
    .table 5 2 7 0 (.table 0 0 1 1 .body)
  obtain ⟨t, ht⟩ : ∃ t, assorted.tree {} = .ok t := ⟨_, rfl⟩
  obtain ⟨t', s, ht', hs, hchildren⟩ := (tree_of_boxed hboxed rfl {}).2 t ht
  have hids : (assorted.tree {}).map (fun t => (t.children.map Tree.id,
      (t.children.map (Tree.raised 6)).map Tree.id)) = .ok ([1, 7, 8, 15], [7, 13, 14, 21]) := by
    decide +kernel
  rw [ht, Except.map, Except.ok.injEq, Prod.mk.injEq, ← hchildren] at hids
  exact ⟨t, t', s, ht, ht', hs, hchildren, hids⟩

end RichText
