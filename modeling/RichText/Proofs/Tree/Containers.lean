import Mathlib.Data.List.Chain
import RichText.Document.Build
import RichText.Proofs.Tree.Grammar

/-!
The discipline of list containers. A container nested in another one is one level deeper and holds
only items of its own level. An outermost container opens with an item of its level, and takes
shallower items as well. Containers of one kind never stand side by side, and none is without items.
-/
namespace RichText

namespace Tree

/-- No two containers of one kind stand side by side. -/
def Parted (ts : List Tree) : Prop := ts.IsChain fun t u => t.kind.isList → t.kind ≠ u.kind

theorem parted_concat {ts : List Tree} {t : Tree} :
    Parted (ts ++ [t]) ↔ Parted ts ∧ ∀ u ∈ ts.getLast?, u.kind.isList → u.kind ≠ t.kind := by
  simp [Parted, List.isChain_append]

theorem parted_of_not_isList {ts : List Tree} (h : ∀ t ∈ ts, ¬ t.kind.isList) : Parted ts := by
  have hpairs : ts.Pairwise fun t u => t.kind.isList → t.kind ≠ u.kind :=
    List.pairwise_of_forall_mem_list fun t ht _ _ hl => absurd hl (h t ht)
  exact hpairs.isChain

/-- All items of the container stand at its level. -/
def Uniform (c : Tree) : Prop := ∀ i ∈ c.children, i.kind.isItem → i.data.level = c.data.level

/-- The container begins with an item of its level, and no item of it is deeper. -/
def Opened (c : Tree) : Prop :=
  (∀ i ∈ c.children, i.kind.isItem → i.data.level ≤ c.data.level) ∧
    ∃ i rest, c.children = i :: rest ∧ i.kind.isItem ∧ i.data.level = c.data.level

/-- The containers under a node keep the discipline. -/
structure Disciplined (t : Tree) : Prop where
  parted : Parted t.children
  filled : t.kind.isList → t.children ≠ []
  nested : t.kind.isList → ∀ c ∈ t.children, c.kind.isList →
    c.data.level = t.data.level + 1 ∧ c.Uniform
  outermost : ¬ t.kind.isList → ∀ c ∈ t.children, c.kind.isList → c.Opened

theorem disciplined_of_not_isList {t : Tree} (ht : ¬ t.kind.isList)
    (h : ∀ c ∈ t.children, ¬ c.kind.isList) : t.Disciplined :=
  ⟨parted_of_not_isList h, fun hl => absurd hl ht, fun hl => absurd hl ht,
    fun _ c hc hl => absurd hl (h c hc)⟩

theorem not_isList_of_isInline {k : Kind} (h : k.isInline) : ¬ k.isList := by
  cases k <;> simp_all [Kind.isInline, Kind.isList]

theorem not_isList_of_isItem {k : Kind} (h : k.isItem) : ¬ k.isList := by
  cases k <;> simp_all [Kind.isItem, Kind.isList]

/-- There is no container on or below a node above the pieces of a line. -/
theorem disciplined_line {id : Nat} {d : Node} (is : List Inline) (hd : ¬ d.kind.isList) :
    (node id d (Inline.trees (id + 1) is)).Everywhere Disciplined := by
  have hts := Inline.everywhere_trees (id + 1) is
  rw [everywhere_node]
  refine ⟨disciplined_of_not_isList hd fun c hc => not_isList_of_isInline (hts c hc).self, ?_⟩
  intro t ht
  have hinline := hts t ht
  clear hts ht
  induction t with
  | node i e ts ih =>
    rw [everywhere_node] at hinline ⊢
    refine ⟨disciplined_of_not_isList (not_isList_of_isInline hinline.1) fun c hc =>
      not_isList_of_isInline (hinline.2 c hc).self, fun c hc => ih c hc (hinline.2 c hc)⟩

theorem disciplined_item (i : ListItem) (id : Nat) : (i.tree id).Everywhere Disciplined :=
  disciplined_line i.inlines (not_isList_of_isItem i.isItem_itemKind)

theorem uniform_newList (i : ListItem) (id : Nat) {level : Nat} (h : level ≤ i.depth) :
    (i.newList id level).Uniform := by
  rw [ListItem.newList_of_le id h]
  simp only [Uniform, children_node, List.mem_singleton, forall_eq, data_node]
  intro hi
  by_cases hl : level + 1 ≤ i.depth
  · rw [ListItem.kind_newList _ hl] at hi
    exact absurd i.isList_listKind (not_isList_of_isItem hi)
  · rw [ListItem.newList_of_lt _ (by omega), ListItem.tree, data_node]
    simp only
    omega

theorem opened_newList (i : ListItem) (id : Nat) : (i.newList id i.depth).Opened := by
  rw [ListItem.newList_of_le id (Nat.le_refl _), ListItem.newList_of_lt _ (Nat.lt_succ_self _)]
  refine ⟨by simp [ListItem.tree], _, [], rfl, i.isItem_itemKind, rfl⟩

theorem disciplined_newList (i : ListItem) (id level : Nat) :
    (i.newList id level).Everywhere Disciplined := by
  by_cases h : level ≤ i.depth
  · have ih := disciplined_newList i (id + 1) (level + 1)
    rw [ListItem.newList_of_le id h, everywhere_node]
    simp only [List.mem_singleton, forall_eq]
    refine ⟨⟨List.isChain_singleton _, by simp, fun _ => ?_, fun hn => ?_⟩, ih⟩
    · simp only [children_node, List.mem_singleton, forall_eq, data_node]
      intro hc
      by_cases hl : level + 1 ≤ i.depth
      · exact ⟨by rw [ListItem.newList_of_le _ hl, data_node], uniform_newList i _ hl⟩
      · rw [ListItem.newList_of_lt _ (by omega)] at hc
        exact absurd hc (not_isList_of_isItem i.isItem_itemKind)
    · exact absurd i.isList_listKind hn
  · rw [ListItem.newList_of_lt id (by omega)]
    exact disciplined_item i id
termination_by i.depth + 1 - level

/-- The items of a container after an item was put into it or below it. -/
theorem item_of_mem_insert {i : ListItem} {id : Nat} {t c : Tree}
    (hc : c ∈ (i.insert id t).children) (hi : c.kind.isItem) :
    c ∈ t.children ∨ c = i.tree id ∧ i.depth ≤ t.data.level := by
  obtain ⟨n, d, ts⟩ := t
  rw [ListItem.insert] at hc
  split at hc
  · obtain ⟨us, u, rfl, hu, hp⟩ | ⟨-, hp⟩ := i.place_cases id (d.level + 1) ts
    · simp only [children_node, hp, List.mem_append, List.mem_singleton] at hc ⊢
      rcases hc with hc | rfl
      · exact .inl (.inl hc)
      · rw [ListItem.kind_insert, hu] at hi
        exact absurd i.isList_listKind (not_isList_of_isItem hi)
    · simp only [children_node, hp, List.mem_append, List.mem_singleton] at hc ⊢
      rcases hc with hc | rfl
      · exact .inl hc
      · rw [ListItem.kind_newList id (by omega)] at hi
        exact absurd i.isList_listKind (not_isList_of_isItem hi)
  · simp only [children_node, List.mem_append, List.mem_singleton, data_node] at hc ⊢
    exact hc.imp_right fun h => ⟨h, by omega⟩

/-- An item at the start of a container stays there. -/
theorem children_insert_of_item (i : ListItem) (id : Nat) {t c : Tree} {rest : List Tree}
    (ht : t.children = c :: rest) (hc : c.kind.isItem) :
    ∃ rest', (i.insert id t).children = c :: rest' := by
  obtain ⟨n, d, ts⟩ := t
  rw [children_node] at ht
  rw [ListItem.insert]
  split
  · obtain ⟨us, u, rfl, hu, hp⟩ | ⟨-, hp⟩ := i.place_cases id (d.level + 1) ts
    · cases us with
      | nil =>
        obtain ⟨rfl, -⟩ := List.cons.inj ht
        exact absurd (hu ▸ i.isList_listKind) (not_isList_of_isItem hc)
      | cons v vs =>
        obtain ⟨rfl, -⟩ := List.cons.inj ht
        exact ⟨vs ++ [i.insert id u], by rw [children_node, hp, List.cons_append]⟩
    · exact ⟨rest ++ [i.newList id (d.level + 1)], by rw [children_node, hp, ht, List.cons_append]⟩
  · exact ⟨rest ++ [i.tree id], by rw [children_node, ht, List.cons_append]⟩

theorem Uniform.insert {i : ListItem} {t : Tree} (h : t.Uniform) (id : Nat)
    (hd : t.data.level ≤ i.depth) : (i.insert id t).Uniform := by
  intro c hc hi
  rw [ListItem.data_insert]
  obtain hc | ⟨rfl, hle⟩ := item_of_mem_insert hc hi
  · exact h c hc hi
  · exact Nat.le_antisymm hle hd

theorem Opened.insert {i : ListItem} {t : Tree} (h : t.Opened) (id : Nat) :
    (i.insert id t).Opened := by
  obtain ⟨hle, c, rest, ht, hc, hl⟩ := h
  rw [Opened, ListItem.data_insert]
  constructor
  · intro c hc hi
    obtain hc | ⟨rfl, hle'⟩ := item_of_mem_insert hc hi
    · exact hle c hc hi
    · exact hle'
  · obtain ⟨rest', hr⟩ := children_insert_of_item i id ht hc
    exact ⟨c, rest', hr, hc, hl⟩

/-- A child of a container at a level, with the discipline kept below it. -/
def Nested (level : Nat) (c : Tree) : Prop :=
  (c.kind.isList → c.data.level = level + 1 ∧ c.Uniform) ∧ c.Everywhere Disciplined

theorem disciplined_container {n : Nat} {d : Node} {ts : List Tree} (hl : d.kind.isList) :
    (node n d ts).Everywhere Disciplined ↔ Parted ts ∧ ts ≠ [] ∧ ∀ c ∈ ts, c.Nested d.level := by
  rw [everywhere_node]
  constructor
  · rintro ⟨⟨hparted, hfilled, hnested, -⟩, hall⟩
    exact ⟨hparted, hfilled hl, fun c hc => ⟨hnested hl c hc, hall c hc⟩⟩
  · rintro ⟨hparted, hfilled, hts⟩
    exact ⟨⟨hparted, fun _ => hfilled, fun _ c hc => (hts c hc).1, fun hn => absurd hl hn⟩,
      fun c hc => (hts c hc).2⟩

theorem nested_item (i : ListItem) (id level : Nat) : (i.tree id).Nested level :=
  ⟨fun h => absurd h (not_isList_of_isItem i.isItem_itemKind), disciplined_item i id⟩

theorem nested_newList (i : ListItem) (id : Nat) {level : Nat} (h : level + 1 ≤ i.depth) :
    (i.newList id (level + 1)).Nested level := by
  refine ⟨fun _ => ⟨?_, uniform_newList i id h⟩, disciplined_newList i id (level + 1)⟩
  rw [ListItem.newList_of_le id h, data_node]

theorem disciplined_insert (i : ListItem) (id : Nat) {t : Tree} (h : t.Everywhere Disciplined)
    (hk : t.kind = i.listKind) : (i.insert id t).Everywhere Disciplined := by
  induction t with
  | node n d ts ih =>
    have hl : d.kind.isList := by
      rw [kind_node] at hk
      exact hk ▸ i.isList_listKind
    obtain ⟨hparted, hfilled, hts⟩ := (disciplined_container hl).1 h
    rw [ListItem.insert]
    split
    · obtain ⟨us, u, rfl, hu, hp⟩ | ⟨hlast, hp⟩ := i.place_cases id (d.level + 1) ts
      · simp only [List.mem_append, List.mem_singleton, or_imp, forall_and, forall_eq] at hts
        obtain ⟨hlevel, huniform⟩ := hts.2.1 (hu ▸ i.isList_listKind)
        rw [hp, disciplined_container hl, parted_concat, ListItem.kind_insert]
        simp only [List.mem_append, List.mem_singleton, or_imp, forall_and, forall_eq]
        refine ⟨parted_concat.1 hparted, by simp, hts.1, fun _ => ?_, ih u (by simp) hts.2.2 hu⟩
        exact ⟨by rw [ListItem.data_insert, hlevel], huniform.insert id (by omega)⟩
      · rw [hp, disciplined_container hl, parted_concat, ListItem.kind_newList id (by omega)]
        simp only [List.mem_append, List.mem_singleton, or_imp, forall_and, forall_eq]
        exact ⟨⟨hparted, fun u hu _ => hlast u hu⟩, by simp, hts, nested_newList i id (by omega)⟩
    · rw [disciplined_container hl, parted_concat]
      simp only [List.mem_append, List.mem_singleton, or_imp, forall_and, forall_eq]
      refine ⟨⟨hparted, fun u _ hul he => ?_⟩, by simp, hts, nested_item i id d.level⟩
      rw [he] at hul
      exact not_isList_of_isItem i.isItem_itemKind hul

/-- A tree in a body or a cell, with the discipline kept in it. -/
def Outer (t : Tree) : Prop := t.Everywhere Disciplined ∧ (t.kind.isList → t.Opened)

/-- Trees in a body or a cell in which the discipline is kept. -/
def DisciplinedBody (ts : List Tree) : Prop := Parted ts ∧ ∀ t ∈ ts, t.Outer

theorem disciplinedBody_concat {ts : List Tree} {t : Tree} :
    DisciplinedBody (ts ++ [t]) ↔
      (Parted ts ∧ ∀ u ∈ ts.getLast?, u.kind.isList → u.kind ≠ t.kind) ∧
        (∀ u ∈ ts, u.Outer) ∧ t.Outer := by
  simp only [DisciplinedBody, parted_concat, List.mem_append, List.mem_singleton, or_imp,
    forall_and, forall_eq]

theorem DisciplinedBody.concat {ts : List Tree} {t : Tree} (hts : DisciplinedBody ts)
    (ht : t.Everywhere Disciplined) (hk : ¬ t.kind.isList) : DisciplinedBody (ts ++ [t]) :=
  disciplinedBody_concat.2
    ⟨⟨hts.1, fun _ _ hl he => hk (he ▸ hl)⟩, hts.2, ht, fun hl => absurd hl hk⟩

/-- A node above the trees of a body or a cell. -/
theorem DisciplinedBody.node {i : Nat} {d : Node} {ts : List Tree} (hts : DisciplinedBody ts)
    (hd : ¬ d.kind.isList) : (Tree.node i d ts).Everywhere Disciplined := by
  rw [everywhere_node]
  exact ⟨⟨hts.1, fun h => absurd h hd, fun h => absurd h hd, fun _ c hc => (hts.2 c hc).2⟩,
    fun t ht => (hts.2 t ht).1⟩

theorem disciplined_table {id : Nat} {rows : List (List (List Block))} {us : List Tree}
    (hus : List.Forall₂ (Block.IsRow fun _ => DisciplinedBody) rows us) :
    (Tree.node id { kind := .table } us).Everywhere Disciplined := by
  have hrows := Block.rows_of_forall₂ hus
  rw [everywhere_node]
  constructor
  · refine disciplined_of_not_isList (by simp [Kind.isList]) fun row hrow => ?_
    obtain ⟨n, cells, rfl, -⟩ := hrows row hrow
    simp [Kind.isList]
  · intro row hrow
    obtain ⟨n, cells, rfl, hcells⟩ := hrows row hrow
    rw [everywhere_node]
    constructor
    · refine disciplined_of_not_isList (by simp [Kind.isList]) fun cell hcell => ?_
      obtain ⟨m, ts, rfl, -⟩ := hcells cell hcell
      simp [Kind.isList]
    · intro cell hcell
      obtain ⟨m, ts, rfl, hts⟩ := hcells cell hcell
      exact hts.node (by simp [Kind.isList])

theorem disciplinedBody_keeps : Block.Keeps (fun _ => True) fun _ => DisciplinedBody where
  nil := ⟨.nil, by simp⟩
  paragraph id bs ts is _ hts := by
    have hd : ¬ Kind.paragraph.isList := by decide
    exact hts.concat (disciplined_line is hd) hd
  heading id bs ts level is _ hts := by
    have hd : ¬ Kind.heading.isList := by decide
    exact hts.concat (disciplined_line is hd) hd
  code id bs ts content _ hts := by
    obtain ⟨us, n, d, vs, rfl, hd, hp⟩ | ⟨-, hp⟩ := Block.placeCode_cases content id ts
    · obtain ⟨hus, hall, ht, ho⟩ := disciplinedBody_concat.1 hts
      obtain ⟨⟨hparted, hfilled, hnested, houter⟩, hvs⟩ := everywhere_node.1 ht
      rw [hp, disciplinedBody_concat]
      exact ⟨hus, hall, everywhere_node.2 ⟨⟨hparted, hfilled, hnested, houter⟩, hvs⟩, ho⟩
    · rw [hp]
      refine hts.concat ?_ (by simp [Kind.isList])
      exact everywhere_leaf.2 (disciplined_of_not_isList (by simp [Kind.isList]) (by simp))
  item id bs ts i _ hts := by
    obtain ⟨us, u, rfl, hu, hp⟩ | ⟨hlast, hp⟩ := i.place_cases id i.depth ts
    · obtain ⟨hus, hall, hd, ho⟩ := disciplinedBody_concat.1 hts
      rw [hp, disciplinedBody_concat, ListItem.kind_insert]
      exact ⟨hus, hall, disciplined_insert i id hd hu, fun hl => (ho (by simpa using hl)).insert id⟩
    · rw [hp, disciplinedBody_concat, ListItem.kind_newList id (Nat.le_refl _)]
      exact ⟨⟨hts.1, fun u hu _ => hlast u hu⟩, hts.2, disciplined_newList i id i.depth,
        fun _ => opened_newList i id⟩
  table id bs ts rows us hus hts :=
    hts.concat (disciplined_table hus) (by simp [Kind.isList])

theorem exists_item {t : Tree} (hf : t.Everywhere Fits) (hd : t.Everywhere Disciplined)
    (hk : t.kind.isList) : ∃ i ∈ t.preorder, i.kind.isItem := by
  induction t with
  | node n d ts ih =>
    obtain ⟨c, hc⟩ := List.exists_mem_of_ne_nil ts (hd.self.filled hk)
    have hcm : c ∈ (node n d ts).children := hc
    obtain hi | hl := (Kind.mayHold_list_iff hk).1 (hf.self.children c hcm)
    · exact ⟨c, mem_preorder_of_child hcm c.self_mem_preorder, hi ▸ Kind.isItem_itemKind _⟩
    · obtain ⟨i, hi, hik⟩ := ih c hc (hf.child hcm) (hd.child hcm) (hl ▸ hk)
      exact ⟨i, mem_preorder_of_child hcm hi, hik⟩

/-- A container that is not in a container stands under the root or in a table cell. -/
theorem placed_of_fits {s t c : Tree} (hf : t.Everywhere Fits) (hs : s ∈ t.preorder)
    (hl : ¬ s.kind.isList) (hc : c ∈ s.children) (hcl : c.kind.isList) :
    s = t ∨ s.kind = .tableCell := by
  have hm := (hf s hs).children c hc
  cases hk : s.kind with
  | document => exact .inl (eq_of_kind_document hf hs hk)
  | tableCell => exact .inr rfl
  | unorderedList => simp [hk, Kind.isList] at hl
  | orderedList => simp [hk, Kind.isList] at hl
  | _ => cases hck : c.kind <;> simp [hk, hck, Kind.mayHold, Kind.isInline, Kind.isList] at hm hcl

/-- The discipline of list containers in a whole tree. -/
structure ListDiscipline (t : Tree) : Prop where
  /-- The root is a document, so every container stands under a node. -/
  root : t.kind = .document
  /-- A container holds items of its kind and containers of its kind. -/
  matching : ∀ s ∈ t.preorder, s.kind.isList → ∀ c ∈ s.children,
    c.kind = s.kind.itemKind ∨ c.kind = s.kind
  /-- A container in a container is one level deeper. -/
  deeper : ∀ s ∈ t.preorder, s.kind.isList → ∀ c ∈ s.children, c.kind.isList →
    c.data.level = s.data.level + 1
  /-- Any other container stands under the root or in a table cell. -/
  placed : ∀ s ∈ t.preorder, ¬ s.kind.isList → ∀ c ∈ s.children, c.kind.isList →
    s = t ∨ s.kind = .tableCell
  /-- The items of a container in a container stand at its level. -/
  nestedItems : ∀ s ∈ t.preorder, s.kind.isList → ∀ c ∈ s.children, c.kind.isList →
    ∀ i ∈ c.children, i.kind.isItem → i.data.level = c.data.level
  /-- The items of an outermost container are not deeper than it. -/
  outermostItems : ∀ s ∈ t.preorder, ¬ s.kind.isList → ∀ c ∈ s.children, c.kind.isList →
    ∀ i ∈ c.children, i.kind.isItem → i.data.level ≤ c.data.level
  /-- An outermost container begins with an item of its level. -/
  opening : ∀ s ∈ t.preorder, ¬ s.kind.isList → ∀ c ∈ s.children, c.kind.isList →
    ∃ i rest, c.children = i :: rest ∧ i.kind.isItem ∧ i.data.level = c.data.level
  /-- No two containers of one kind stand side by side. -/
  parted : ∀ s ∈ t.preorder, s.children.IsChain fun c c' => c.kind.isList → c.kind ≠ c'.kind
  /-- There is an item in every container or below it. -/
  filled : ∀ s ∈ t.preorder, s.kind.isList → ∃ i ∈ s.preorder, i.kind.isItem

theorem everywhere_disciplined {d : Document} {o : Options} {t : Tree} (h : d.tree o = .ok t) :
    t.Everywhere Disciplined := by
  obtain ⟨bs, -, rfl⟩ := Document.tree_eq_ok h
  exact (disciplinedBody_keeps.placeAll_nil 1 (by simp)).node (by simp [Kind.isList])

end Tree

/-- The containers in the tree of a document keep the discipline. -/
theorem Document.listDiscipline_tree {d : Document} {o : Options} {t : Tree}
    (h : d.tree o = .ok t) : t.ListDiscipline := by
  have hf := everywhere_fits h
  have hd := Tree.everywhere_disciplined h
  exact {
    root := by
      obtain ⟨bs, -, rfl⟩ := tree_eq_ok h
      rfl
    matching := fun s hs hl c hc => (Kind.mayHold_list_iff hl).1 ((hf s hs).children c hc)
    deeper := fun s hs hl c hc hcl => ((hd s hs).nested hl c hc hcl).1
    placed := fun s hs hl c hc hcl => Tree.placed_of_fits hf hs hl hc hcl
    nestedItems := fun s hs hl c hc hcl => ((hd s hs).nested hl c hc hcl).2
    outermostItems := fun s hs hl c hc hcl => ((hd s hs).outermost hl c hc hcl).1
    opening := fun s hs hl c hc hcl => ((hd s hs).outermost hl c hc hcl).2
    parted := fun s hs => (hd s hs).parted
    filled := fun s hs hl => Tree.exists_item (hf.of_mem hs) (hd.of_mem hs) hl }

/-- A list that skips a level, comes back above its first item and goes on behind a table. -/
def Document.uneven : Document :=
  (({} : Document).addList "b" .bulleted)
    |>.addParagraph (.bulleted "b" 1 "first")
    |>.addParagraph (.bulleted "b" 4 "deeper")
    |>.addParagraph (.bulleted "b" 0 "shallower")
    |>.addTable (.addRow {} [[.ofParagraph (.bulleted "b" 2 "inside")]])
    |>.addParagraph (.bulleted "b" 3 "last")

theorem Document.listDiscipline_uneven :
    ∃ t, uneven.tree {} = .ok t ∧ t.ListDiscipline := by
  obtain ⟨t, ht⟩ : ∃ t, uneven.tree {} = .ok t := ⟨_, rfl⟩
  exact ⟨t, ht, listDiscipline_tree ht⟩

end RichText
