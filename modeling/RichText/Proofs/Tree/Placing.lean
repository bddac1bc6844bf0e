import RichText.Proofs.Block.Sequence
import RichText.Proofs.Lists
import RichText.Tree.OfBlocks

/-!
How trees grow while blocks are placed. Placing changes the last of the trees that are there or
adds one after it, and inside a list it does the same to the last child. A property of sibling
trees that every single placing keeps holds of the children of the root and of every cell.
-/
namespace RichText

namespace Tree

/-- A tree property holds if it passes from all children of a node to the node. -/
@[elab_as_elim, induction_eliminator]
theorem induct {motive : Tree → Prop}
    (node : ∀ i d ts, (∀ t ∈ ts, motive t) → motive (node i d ts)) (t : Tree) : motive t :=
  Tree.rec node (by simp) (fun t ts ht hts => by simpa using ⟨ht, hts⟩) t

/-- What holds at a node and at every node below it. -/
def Everywhere (P : Tree → Prop) (t : Tree) : Prop := ∀ s ∈ t.preorder, P s

section Everywhere
variable {P : Tree → Prop}

theorem mem_preorderAll {s : Tree} {ts : List Tree} :
    s ∈ preorderAll ts ↔ ∃ t ∈ ts, s ∈ t.preorder := by
  induction ts with
  | nil => simp [preorderAll]
  | cons t ts ih => simp [preorderAll, ih]

theorem self_mem_preorder (t : Tree) : t ∈ t.preorder := by
  cases t
  rw [preorder]
  exact List.mem_cons_self

theorem mem_preorder_of_child {s c t : Tree} (hc : c ∈ t.children) (hs : s ∈ c.preorder) :
    s ∈ t.preorder := by
  cases t
  rw [preorder, List.mem_cons, mem_preorderAll]
  exact .inr ⟨c, hc, hs⟩

/-- Every node is the root or stands under a node. -/
theorem eq_or_mem_children {s t : Tree} (hs : s ∈ t.preorder) :
    s = t ∨ ∃ p ∈ t.preorder, s ∈ p.children := by
  induction t with
  | node i d ts ih =>
    rw [preorder, List.mem_cons, mem_preorderAll] at hs
    obtain rfl | ⟨u, hu, hsu⟩ := hs
    · exact .inl rfl
    · refine .inr ?_
      obtain rfl | ⟨p, hp, hsp⟩ := ih u hu hsu
      · exact ⟨_, self_mem_preorder _, hu⟩
      · exact ⟨p, mem_preorder_of_child hu hp, hsp⟩

theorem everywhere_node {i : Nat} {d : Node} {ts : List Tree} :
    (node i d ts).Everywhere P ↔ P (node i d ts) ∧ ∀ t ∈ ts, t.Everywhere P := by
  simp only [Everywhere, preorder, List.mem_cons, forall_eq_or_imp, mem_preorderAll]
  exact and_congr_right fun _ => ⟨fun h t ht s hs => h s ⟨t, ht, hs⟩,
    fun h s ⟨t, ht, hs⟩ => h t ht s hs⟩

theorem everywhere_leaf {i : Nat} {d : Node} : (leaf i d).Everywhere P ↔ P (leaf i d) := by
  simp [everywhere_node]

theorem Everywhere.self {t : Tree} (h : t.Everywhere P) : P t := by
  cases t
  exact (everywhere_node.1 h).1

theorem Everywhere.child {t c : Tree} (h : t.Everywhere P) (hc : c ∈ t.children) :
    c.Everywhere P := by
  cases t
  exact (everywhere_node.1 h).2 c hc

theorem Everywhere.of_mem {s t : Tree} (h : t.Everywhere P) (hs : s ∈ t.preorder) :
    s.Everywhere P := by
  induction t with
  | node i d ts ih =>
    rw [preorder, List.mem_cons, mem_preorderAll] at hs
    obtain rfl | ⟨u, hu, hsu⟩ := hs
    · exact h
    · exact ih u hu (h.child hu) hsu

theorem mem_preorder_trans {s c t : Tree} (hs : s ∈ t.preorder) (hc : c ∈ s.preorder) :
    c ∈ t.preorder := by
  have hall : t.Everywhere fun u => u ∈ t.preorder := fun _ hu => hu
  exact hall.of_mem hs c hc

theorem mem_preorder_of_mem_children {s c t : Tree} (hs : s ∈ t.preorder) (hc : c ∈ s.children) :
    c ∈ t.preorder :=
  mem_preorder_trans hs (mem_preorder_of_child hc c.self_mem_preorder)

theorem Everywhere.mono {Q : Tree → Prop} {t : Tree} (h : t.Everywhere P) (hPQ : ∀ s, P s → Q s) :
    t.Everywhere Q := fun s hs => hPQ s (h s hs)

end Everywhere

end Tree

open RichText.Tree

theorem Kind.ne_of_isList {k c : Kind} (hk : k.isList) (hc : c.isList = false) : k ≠ c := by
  rintro rfl
  rw [hc] at hk
  cases hk

/-- Whether nodes of the kind stand inside a line. -/
def Kind.isInline : Kind → Bool
  | .plain | .bold | .italic | .link | .image => true
  | _ => false

namespace Inline

theorem everywhere_tree (id : Nat) (i : Inline) :
    (i.tree id).Everywhere fun s => s.kind.isInline := by
  cases i with
  | text bold italic url content =>
    cases bold <;> cases italic <;> cases url <;>
      simp [tree, spans, chain, everywhere_node, Kind.isInline]
  | image objectId => simp [tree, everywhere_node, Kind.isInline]

theorem everywhere_trees (id : Nat) (is : List Inline) :
    ∀ t ∈ trees id is, t.Everywhere fun s => s.kind.isInline := by
  induction is generalizing id with
  | nil => simp [trees]
  | cons i is ih =>
    simp only [trees, List.mem_cons, forall_eq_or_imp]
    exact ⟨everywhere_tree id i, ih _⟩

end Inline

namespace ListItem

theorem isList_listKind (i : ListItem) : i.listKind.isList := by
  cases h : i.ordered <;> simp [listKind, Kind.isList, h]

theorem isItem_itemKind (i : ListItem) : i.itemKind.isItem := by
  cases h : i.ordered <;> simp [itemKind, Kind.isItem, h]

theorem newList_of_le {i : ListItem} {level : Nat} (id : Nat) (h : level ≤ i.depth) :
    i.newList id level =
      node id { kind := i.listKind, level } [i.newList (id + 1) (level + 1)] := by
  have hr : i.depth + 1 - level = (i.depth + 1 - (level + 1)) + 1 := by omega
  simp only [newList, hr, List.range'_succ, List.map_cons, chain]

theorem newList_of_lt {i : ListItem} {level : Nat} (id : Nat) (h : i.depth < level) :
    i.newList id level = i.tree id := by
  have hr : i.depth + 1 - level = 0 := by omega
  simp only [newList, hr, List.range'_zero, List.map_nil, chain]

theorem kind_newList {i : ListItem} {level : Nat} (id : Nat) (h : level ≤ i.depth) :
    (i.newList id level).kind = i.listKind := by rw [newList_of_le id h, kind_node]

@[simp] theorem data_insert (i : ListItem) (id : Nat) (t : Tree) :
    (i.insert id t).data = t.data := by
  cases t
  rw [insert]
  split <;> rfl

@[simp] theorem kind_insert (i : ListItem) (id : Nat) (t : Tree) :
    (i.insert id t).kind = t.kind := by rw [kind, data_insert, kind]

theorem place_concat (i : ListItem) (id level : Nat) (ts : List Tree) (t : Tree) :
    i.place id level (ts ++ [t]) =
      ts ++ if t.kind = i.listKind then [i.insert id t] else [t, i.newList id level] := by
  induction ts with
  | nil => rw [List.nil_append, place, List.nil_append]
  | cons u us ih =>
    obtain ⟨v, vs, hv⟩ := List.exists_cons_of_ne_nil (List.concat_ne_nil t us)
    rw [List.cons_append, hv, place, ← hv, ih, List.cons_append]

/-- An item goes into the last tree if that is a container of its kind, and else into a new one. -/
theorem place_cases (i : ListItem) (id level : Nat) (ts : List Tree) :
    (∃ us t, ts = us ++ [t] ∧ t.kind = i.listKind ∧ i.place id level ts = us ++ [i.insert id t]) ∨
    (∀ t ∈ ts.getLast?, t.kind ≠ i.listKind) ∧
      i.place id level ts = ts ++ [i.newList id level] := by
  rcases List.eq_nil_or_concat ts with rfl | ⟨us, t, rfl⟩
  · exact .inr ⟨by simp, by rw [place, List.nil_append]⟩
  · rw [List.concat_eq_append, place_concat]
    by_cases ht : t.kind = i.listKind
    · exact .inl ⟨us, t, rfl, ht, by rw [if_pos ht]⟩
    · exact .inr ⟨by simpa using ht, by rw [if_neg ht, List.append_assoc]; rfl⟩

end ListItem

namespace Block

theorem placeCode_concat (content : String) (id : Nat) (ts : List Tree) (n : Nat) (d : Node)
    (us : List Tree) :
    placeCode content id (ts ++ [node n d us]) =
      ts ++ if d.kind = .code then [node n { d with content := d.content ++ content } us]
        else [node n d us, leaf id { kind := .code, content }] := by
  induction ts with
  | nil => rw [List.nil_append, placeCode, List.nil_append]
  | cons t ts ih =>
    obtain ⟨v, vs, hv⟩ := List.exists_cons_of_ne_nil (List.concat_ne_nil (node n d us) ts)
    rw [List.cons_append, hv, placeCode, ← hv, ih, List.cons_append]

/-- Code joins the last tree if that is code, and else begins a new one. -/
theorem placeCode_cases (content : String) (id : Nat) (ts : List Tree) :
    (∃ us n d vs, ts = us ++ [node n d vs] ∧ d.kind = .code ∧
      placeCode content id ts = us ++ [node n { d with content := d.content ++ content } vs]) ∨
    (∀ t ∈ ts.getLast?, t.kind ≠ .code) ∧
      placeCode content id ts = ts ++ [leaf id { kind := .code, content }] := by
  rcases List.eq_nil_or_concat ts with rfl | ⟨us, ⟨n, d, vs⟩, rfl⟩
  · exact .inr ⟨by simp, by rw [placeCode, List.nil_append]⟩
  · rw [List.concat_eq_append, placeCode_concat]
    by_cases hd : d.kind = .code
    · exact .inl ⟨us, n, d, vs, rfl, hd, by rw [if_pos hd]⟩
    · exact .inr ⟨by simpa using hd, by rw [if_neg hd, List.append_assoc]; rfl⟩

/-- A cell of a table, and the blocks in it. -/
def IsCell (Q : List Block → List Tree → Prop) (bs : List Block) (cell : Tree) : Prop :=
  ∃ n ts, cell = node n { kind := .tableCell } ts ∧ Q bs ts

/-- A row of a table, and the cells in it. -/
def IsRow (Q : List Block → List Tree → Prop) (cells : List (List Block)) (row : Tree) : Prop :=
  ∃ n ts, row = node n { kind := .tableRow } ts ∧ List.Forall₂ (IsCell Q) cells ts

/-- A relation between the blocks under one parent and their trees that the placing of one more
block keeps, as long as the block has the property `P`. -/
structure Keeps (P : Block → Prop) (Q : List Block → List Tree → Prop) : Prop where
  nil : Q [] []
  paragraph : ∀ id bs ts is, P (.paragraph is) → Q bs ts → Q (bs ++ [.paragraph is])
    (ts ++ [node id { kind := .paragraph } (Inline.trees (id + 1) is)])
  heading : ∀ id bs ts level is, P (.heading level is) → Q bs ts → Q (bs ++ [.heading level is])
    (ts ++ [node id { kind := .heading, level } (Inline.trees (id + 1) is)])
  code : ∀ id bs ts content, P (.code content) → Q bs ts →
    Q (bs ++ [.code content]) (placeCode content id ts)
  item : ∀ id bs ts i, P (.item i) → Q bs ts → Q (bs ++ [.item i]) (i.place id i.depth ts)
  table : ∀ id bs ts rows us, List.Forall₂ (IsRow Q) rows us → Q bs ts →
    Q (bs ++ [.table rows]) (ts ++ [node id { kind := .table } us])

section Keeps
variable {P : Block → Prop} {Q : List Block → List Tree → Prop}

mutual
theorem Keeps.place (h : Keeps P Q) (id : Nat) {bs : List Block} {ts : List Tree} (hts : Q bs ts) :
    ∀ b : Block, (∀ c ∈ b.leaves, P c) → Q (bs ++ [b]) (b.place id ts)
  | .paragraph is, hb => h.paragraph id bs ts is (hb _ (by simp [leaves])) hts
  | .heading level is, hb => h.heading id bs ts level is (hb _ (by simp [leaves])) hts
  | .code content, hb => h.code id bs ts content (hb _ (by simp [leaves])) hts
  | .item i, hb => h.item id bs ts i (hb _ (by simp [leaves])) hts
  | .table rows, hb => h.table id bs ts rows _ (h.placeRows (id + 1) .nil rows hb) hts
/-- What every single placing keeps holds of blocks that are placed one after the other. -/
theorem Keeps.placeAll (h : Keeps P Q) (first : Nat) {bs : List Block} {ts : List Tree}
    (hts : Q bs ts) : ∀ cs : List Block, (∀ c ∈ leavesOfAll cs, P c) →
      Q (bs ++ cs) (placeAll first ts cs)
  | [], _ => by simpa [Block.placeAll] using hts
  | c :: cs, hcs => by
    simp only [leavesOfAll, List.mem_append, or_imp, forall_and] at hcs
    have hc := h.place (first + sizeAll ts) hts c hcs.1
    simpa [Block.placeAll] using h.placeAll first hc cs hcs.2
theorem Keeps.placeRows (h : Keeps P Q) (first : Nat) {done : List (List (List Block))}
    {ts : List Tree} (hts : List.Forall₂ (IsRow Q) done ts) : ∀ rows : List (List (List Block)),
    (∀ c ∈ leavesOfRows rows, P c) →
      List.Forall₂ (IsRow Q) (done ++ rows) (placeRows first ts rows)
  | [], _ => by simpa [Block.placeRows] using hts
  | row :: rows, hrows => by
    simp only [leavesOfRows, List.mem_append, or_imp, forall_and] at hrows
    have hrow : IsRow Q row (node (first + sizeAll ts) { kind := .tableRow } _) :=
      ⟨_, _, rfl, h.placeCells (first + sizeAll ts + 1) .nil row hrows.1⟩
    have hdone := List.rel_append hts (.cons hrow .nil)
    simpa [Block.placeRows] using h.placeRows first hdone rows hrows.2
theorem Keeps.placeCells (h : Keeps P Q) (first : Nat) {done : List (List Block)}
    {ts : List Tree} (hts : List.Forall₂ (IsCell Q) done ts) : ∀ cells : List (List Block),
    (∀ c ∈ leavesOfCells cells, P c) →
      List.Forall₂ (IsCell Q) (done ++ cells) (placeCells first ts cells)
  | [], _ => by simpa [Block.placeCells] using hts
  | cell :: cells, hcells => by
    simp only [leavesOfCells, List.mem_append, or_imp, forall_and] at hcells
    have hcell : IsCell Q cell (node (first + sizeAll ts) { kind := .tableCell } _) :=
      ⟨_, _, rfl, h.placeAll (first + sizeAll ts + 1) h.nil cell hcells.1⟩
    have hdone := List.rel_append hts (.cons hcell .nil)
    simpa [Block.placeCells] using h.placeCells first hdone cells hcells.2
end

/-- What every single placing keeps holds of the blocks of a body and of every cell. -/
theorem Keeps.placeAll_nil (h : Keeps P Q) (first : Nat) {bs : List Block}
    (hbs : ∀ c ∈ leavesOfAll bs, P c) : Q bs (Block.placeAll first [] bs) := by
  simpa using h.placeAll first h.nil bs hbs

/-- The rows of a table by what their cells hold, whatever blocks that came from. -/
theorem rows_of_forall₂ {Q : List Tree → Prop} {rows : List (List (List Block))} {us : List Tree}
    (h : List.Forall₂ (IsRow fun _ => Q) rows us) : ∀ row ∈ us, ∃ n cells,
      row = node n { kind := .tableRow } cells ∧
        ∀ cell ∈ cells, ∃ m ts, cell = node m { kind := .tableCell } ts ∧ Q ts := by
  intro row hrow
  obtain ⟨cells, -, n, ts, rfl, hts⟩ := exists_left_of_forall₂ h hrow
  refine ⟨n, ts, rfl, fun cell hcell => ?_⟩
  obtain ⟨bs, -, hbs⟩ := exists_left_of_forall₂ hts hcell
  exact hbs

end Keeps

end Block

theorem Document.tree_eq_ok {d : Document} {o : Options} {t : Tree} (h : d.tree o = .ok t) :
    ∃ bs, d.blocks o = .ok bs ∧ t = Tree.ofBlocks bs := by
  unfold tree at h
  cases hb : d.blocks o with
  | error e => simp [hb, Except.map] at h
  | ok bs =>
    simp only [hb, Except.map, Except.ok.injEq] at h
    exact ⟨bs, rfl, h.symm⟩

end RichText
