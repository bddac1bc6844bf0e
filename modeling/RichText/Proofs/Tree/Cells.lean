import RichText.Proofs.Tree.Reading

/-!
The cells of a tree. Placing blocks reads the contents of each table cell as it reads a body, so
what every single placing keeps holds of the body and of every cell, and in preorder the cells of
the tree are those of the blocks.
-/
namespace RichText

namespace Block

mutual
/-- The contents of the cells in a block, each before those of the cells in it. -/
def cells : Block → List (List Block)
  | table rows => cellsOfRows rows
  | _ => []
def cellsOfAll : List Block → List (List Block)
  | [] => []
  | b :: bs => cells b ++ cellsOfAll bs
def cellsOfRows : List (List (List Block)) → List (List Block)
  | [] => []
  | row :: rows => cellsOfRow row ++ cellsOfRows rows
def cellsOfRow : List (List Block) → List (List Block)
  | [] => []
  | cell :: row => cell :: cellsOfAll cell ++ cellsOfRow row
end

theorem cellsOfAll_append (bs cs : List Block) :
    cellsOfAll (bs ++ cs) = cellsOfAll bs ++ cellsOfAll cs := by
  induction bs with
  | nil => rfl
  | cons b bs ih => rw [List.cons_append, cellsOfAll, ih, cellsOfAll, List.append_assoc]

theorem cellsOfAll_concat (bs : List Block) (b : Block) :
    cellsOfAll (bs ++ [b]) = cellsOfAll bs ++ b.cells := by
  rw [cellsOfAll_append, cellsOfAll, cellsOfAll, List.append_nil]

end Block

namespace Tree

/-- The table cells in preorder. -/
def cells (t : Tree) : List Tree := t.read fun s => if s.kind = .tableCell then [s] else []

theorem mem_cells {s t : Tree} : s ∈ t.cells ↔ s ∈ t.preorder ∧ s.kind = .tableCell := by
  rw [cells, read, List.mem_flatMap]
  constructor
  · rintro ⟨u, hu, hs⟩
    split at hs
    · obtain rfl := List.mem_singleton.1 hs
      exact ⟨hu, ‹_›⟩
    · simp at hs
  · rintro ⟨hs, hk⟩
    exact ⟨s, hs, by simp [hk]⟩

theorem cells_cell (i : Nat) {d : Node} (hd : d.kind = .tableCell) (ts : List Tree) :
    (node i d ts).cells = node i d ts :: ts.flatMap cells := by
  rw [cells, read_node, kind_node, if_pos hd]
  rfl

theorem cells_node (i : Nat) {d : Node} (hd : d.kind ≠ .tableCell) (ts : List Tree) :
    (node i d ts).cells = ts.flatMap cells := by
  rw [cells, read_node, kind_node, if_neg hd]
  rfl

theorem cells_line {id : Nat} {d : Node} (hd : d.kind ≠ .tableCell) (is : List Inline) :
    (node id d (Inline.trees (id + 1) is)).cells = [] := by
  rw [cells_node id hd]
  refine flatMap_trees_eq_nil (fun t ht => if_neg ?_) (id + 1) is
  intro hk
  rw [hk] at ht
  cases ht

theorem ne_tableCell_of_isItem {k : Kind} (h : k.isItem) : k ≠ .tableCell := by
  rintro rfl
  cases h

section
variable (i : ListItem)

theorem cells_item (id : Nat) : (i.tree id).cells = [] :=
  cells_line (ne_tableCell_of_isItem i.isItem_itemKind) i.inlines

theorem cells_newList (id level : Nat) : (i.newList id level).cells = [] := by
  by_cases h : level ≤ i.depth
  · have hk : i.listKind ≠ .tableCell := Kind.ne_of_isList i.isList_listKind rfl
    rw [ListItem.newList_of_le id h, cells_node id hk, List.flatMap_singleton]
    exact cells_newList (id + 1) (level + 1)
  · rw [ListItem.newList_of_lt id (by omega)]
    exact cells_item i id
termination_by i.depth + 1 - level

/-- There are no cells in an item that is put into a list. -/
theorem cells_insert (id : Nat) {t : Tree} (ht : t.kind.isList) :
    (i.insert id t).cells = t.cells := by
  induction t with
  | node n d ts ih =>
    have hk : d.kind ≠ .tableCell := Kind.ne_of_isList ht rfl
    rw [ListItem.insert, cells_node n hk]
    split
    · obtain ⟨us, u, rfl, hu, hp⟩ | ⟨-, hp⟩ := i.place_cases id (d.level + 1) ts
      · rw [cells_node n hk, hp, List.flatMap_append, List.flatMap_append, List.flatMap_singleton,
          List.flatMap_singleton, ih u (by simp) (hu ▸ i.isList_listKind)]
      · rw [cells_node n hk, hp, List.flatMap_append, List.flatMap_singleton, cells_newList,
          List.append_nil]
    · rw [cells_node n hk, List.flatMap_append, List.flatMap_singleton, cells_item,
        List.append_nil]

end

/-- What holds of the blocks under one parent and their trees, and of those in every cell. -/
def InCells (Q : List Block → List Tree → Prop) (bs : List Block) (ts : List Tree) : Prop :=
  Q bs ts ∧ List.Forall₂ (fun cs cell => Q cs cell.children) (Block.cellsOfAll bs)
    (ts.flatMap cells)

section
variable {P : Block → Prop} {Q : List Block → List Tree → Prop}

theorem InCells.concat {bs : List Block} {ts : List Tree} (h : InCells Q bs ts) {b : Block}
    {t : Tree} (hQ : Q (bs ++ [b]) (ts ++ [t]))
    (hcells : List.Forall₂ (fun cs cell => Q cs cell.children) b.cells t.cells) :
    InCells Q (bs ++ [b]) (ts ++ [t]) := by
  refine ⟨hQ, ?_⟩
  rw [Block.cellsOfAll_concat, List.flatMap_append, List.flatMap_singleton]
  exact List.rel_append h.2 hcells

/-- A block without cells may change the last tree, as long as the cells stay the same. -/
theorem InCells.of_flatMap_eq {bs : List Block} {ts us : List Tree} (h : InCells Q bs ts)
    {b : Block} (hQ : Q (bs ++ [b]) us) (hb : b.cells = [])
    (hcells : us.flatMap cells = ts.flatMap cells) : InCells Q (bs ++ [b]) us := by
  refine ⟨hQ, ?_⟩
  rw [Block.cellsOfAll_concat, hb, List.append_nil, hcells]
  exact h.2

theorem forall₂_cells_row {row : List (List Block)} {ts : List Tree}
    (h : List.Forall₂ (Block.IsCell (InCells Q)) row ts) :
    List.Forall₂ (fun cs cell => Q cs cell.children) (Block.cellsOfRow row)
      (ts.flatMap cells) := by
  induction h with
  | nil => exact .nil
  | cons hcell _ ih =>
    obtain ⟨n, us, rfl, hQ, hus⟩ := hcell
    have hcells : List.Forall₂ (fun cs s => Q cs s.children) (_ :: Block.cellsOfAll _)
        (node n { kind := .tableCell } us :: us.flatMap cells) := .cons hQ hus
    rw [Block.cellsOfRow, List.flatMap_cons, cells_cell n rfl]
    exact List.rel_append hcells ih

theorem forall₂_cells_rows {rows : List (List (List Block))} {ts : List Tree}
    (h : List.Forall₂ (Block.IsRow (InCells Q)) rows ts) :
    List.Forall₂ (fun cs cell => Q cs cell.children) (Block.cellsOfRows rows)
      (ts.flatMap cells) := by
  induction h with
  | nil => exact .nil
  | cons hrow _ ih =>
    obtain ⟨n, us, rfl, hus⟩ := hrow
    rw [Block.cellsOfRows, List.flatMap_cons, cells_node n (by simp)]
    exact List.rel_append (forall₂_cells_row hus) ih

theorem isRow_of_inCells {rows : List (List (List Block))} {ts : List Tree}
    (h : List.Forall₂ (Block.IsRow (InCells Q)) rows ts) :
    List.Forall₂ (Block.IsRow Q) rows ts := by
  refine h.imp fun row t => ?_
  rintro ⟨n, us, rfl, hus⟩
  refine ⟨n, us, rfl, hus.imp fun cell u => ?_⟩
  rintro ⟨m, vs, rfl, hQ, -⟩
  exact ⟨m, vs, rfl, hQ⟩

/-- What every single placing keeps, it keeps in all cells as well. -/
theorem keeps_inCells (h : Block.Keeps P Q) : Block.Keeps P (InCells Q) where
  nil := ⟨h.nil, .nil⟩
  paragraph id bs ts is hP hts := by
    refine hts.concat (h.paragraph id bs ts is hP hts.1) ?_
    rw [cells_line (by simp)]
    exact .nil
  heading id bs ts level is hP hts := by
    refine hts.concat (h.heading id bs ts level is hP hts.1) ?_
    rw [cells_line (by simp)]
    exact .nil
  code id bs ts content hP hts := by
    refine hts.of_flatMap_eq (h.code id bs ts content hP hts.1) rfl ?_
    obtain ⟨us, n, d, vs, rfl, hd, hp⟩ | ⟨-, hp⟩ := Block.placeCode_cases content id ts
    · have hk : d.kind ≠ .tableCell := by simp [hd]
      have hk' : ({ d with content := d.content ++ content } : Node).kind ≠ .tableCell := hk
      rw [hp, List.flatMap_append, List.flatMap_append, List.flatMap_singleton,
        List.flatMap_singleton, cells_node n hk, cells_node n hk']
    · rw [hp, List.flatMap_append, List.flatMap_singleton, cells_node id (by simp)]
      simp
  item id bs ts i hP hts := by
    refine hts.of_flatMap_eq (h.item id bs ts i hP hts.1) rfl ?_
    obtain ⟨us, u, rfl, hu, hp⟩ | ⟨-, hp⟩ := i.place_cases id i.depth ts
    · rw [hp, List.flatMap_append, List.flatMap_append, List.flatMap_singleton,
        List.flatMap_singleton, cells_insert i id (hu ▸ i.isList_listKind)]
    · rw [hp, List.flatMap_append, List.flatMap_singleton, cells_newList, List.append_nil]
  table id bs ts rows us hus hts := by
    refine hts.concat (h.table id bs ts rows us (isRow_of_inCells hus) hts.1) ?_
    rw [cells_node id (by simp)]
    exact forall₂_cells_rows hus

/-- What every single placing keeps holds of a body and of all its cells in preorder. -/
theorem forall₂_cells_ofBlocks (h : Block.Keeps P Q) {bs : List Block}
    (hbs : ∀ b ∈ Block.leavesOfAll bs, P b) :
    List.Forall₂ (fun cs s => Q cs s.children) (bs :: Block.cellsOfAll bs)
      (ofBlocks bs :: (ofBlocks bs).cells) := by
  obtain ⟨hQ, hcells⟩ := (keeps_inCells h).placeAll_nil 1 hbs
  rw [ofBlocks, cells_node 0 (by simp)]
  exact .cons hQ hcells

end

end Tree

end RichText
