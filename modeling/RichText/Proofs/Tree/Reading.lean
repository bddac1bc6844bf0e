import RichText.Proofs.Tree.Placing

/-!
Readings of trees: what is found at the nodes, taken in preorder. A reading that finds nothing at
the nodes which only hold blocks, and finds in joined code what it finds in the parts, is the
reading of the blocks without their tables. So neither lists that are opened again nor code that
is joined change the order of what a document says.
-/
namespace RichText

/-- Whether nodes of the kind hold blocks and show nothing of their own. -/
def Kind.isHolder : Kind → Bool
  | .document | .unorderedList | .orderedList | .table | .tableRow | .tableCell => true
  | _ => false

theorem Kind.isHolder_of_isList {k : Kind} (h : k.isList) : k.isHolder := by
  cases k <;> simp_all [isList, isHolder]

namespace Tree
variable {α : Type}

def read (f : Tree → List α) (t : Tree) : List α := t.preorder.flatMap f

theorem flatMap_preorderAll (f : Tree → List α) (ts : List Tree) :
    (preorderAll ts).flatMap f = ts.flatMap (read f) := by
  induction ts with
  | nil => rfl
  | cons t ts ih => rw [preorderAll, List.flatMap_append, ih, List.flatMap_cons, read]

@[simp] theorem read_node (f : Tree → List α) (i : Nat) (d : Node) (ts : List Tree) :
    (node i d ts).read f = f (node i d ts) ++ ts.flatMap (read f) := by
  rw [read, preorder, List.flatMap_cons, flatMap_preorderAll]

/-- What is read at the nodes of one sort only. -/
theorem map_filter_preorder (p : Tree → Bool) (g : Tree → α) (t : Tree) :
    (t.preorder.filter p).map g = t.read fun s => if p s then [g s] else [] := by
  rw [read]
  induction t.preorder with
  | nil => rfl
  | cons s ss ih =>
    rw [List.filter_cons, List.flatMap_cons, ← ih]
    by_cases hs : p s <;> simp [hs]

theorem read_eq_nil {f : Tree → List α} {t : Tree} (h : t.Everywhere fun s => f s = []) :
    t.read f = [] := List.flatMap_eq_nil_iff.2 h

theorem flatMap_trees_eq_nil {f : Tree → List α} (hf : ∀ t, t.kind.isInline → f t = [])
    (id : Nat) (is : List Inline) : (Inline.trees id is).flatMap (read f) = [] := by
  rw [List.flatMap_eq_nil_iff]
  intro t ht
  exact read_eq_nil ((Inline.everywhere_trees id is t ht).mono hf)

/-- Reading at the nodes of some kinds only, none of which stand inside a line, a node above the
pieces of a line is all that there is to read. -/
theorem read_line {p : Kind → Bool} (hp : ∀ k : Kind, k.isInline → p k = false) (g : Tree → α)
    (id : Nat) (d : Node) (is : List Inline) :
    (node id d (Inline.trees (id + 1) is)).read (fun s => if p s.kind then [g s] else []) =
      if p d.kind then [g (node id d (Inline.trees (id + 1) is))] else [] := by
  have hnil (t : Tree) (ht : t.kind.isInline) : (if p t.kind then [g t] else []) = [] := by
    simp [hp t.kind ht]
  rw [read_node, flatMap_trees_eq_nil hnil, List.append_nil, kind_node]

/-- Code among sibling trees has nothing below it. -/
def CodeIsLeaf (ts : List Tree) : Prop := ∀ t ∈ ts, t.kind = .code → t.children = []

theorem codeIsLeaf_concat {ts : List Tree} {t : Tree} :
    CodeIsLeaf (ts ++ [t]) ↔ CodeIsLeaf ts ∧ (t.kind = .code → t.children = []) := by
  simp [CodeIsLeaf, or_imp, forall_and]

theorem CodeIsLeaf.placeCode {ts : List Tree} (h : CodeIsLeaf ts) (content : String) (id : Nat) :
    CodeIsLeaf (Block.placeCode content id ts) := by
  obtain ⟨us, n, d, vs, rfl, hd, hp⟩ | ⟨-, hp⟩ := Block.placeCode_cases content id ts
  · rw [codeIsLeaf_concat] at h
    rw [hp, codeIsLeaf_concat]
    exact ⟨h.1, fun _ => h.2 hd⟩
  · rw [hp, codeIsLeaf_concat]
    exact ⟨h, fun _ => rfl⟩

theorem CodeIsLeaf.place {ts : List Tree} (h : CodeIsLeaf ts) (i : ListItem) (id : Nat) :
    CodeIsLeaf (i.place id i.depth ts) := by
  have hk : i.listKind ≠ .code := Kind.ne_of_isList i.isList_listKind rfl
  obtain ⟨us, u, rfl, hu, hp⟩ | ⟨-, hp⟩ := i.place_cases id i.depth ts
  · rw [codeIsLeaf_concat] at h
    rw [hp, codeIsLeaf_concat, ListItem.kind_insert, hu]
    exact ⟨h.1, fun hc => absurd hc hk⟩
  · rw [hp, codeIsLeaf_concat, ListItem.kind_newList id (Nat.le_refl _)]
    exact ⟨h, fun hc => absurd hc hk⟩

/-- A reading of trees that finds the same as a reading of blocks: nothing where blocks are only
held, and in joined code what is in its parts. -/
structure Reads (f : Tree → List α) (g : Block → List α) : Prop where
  holder : ∀ id kind level ts, kind.isHolder → f (node id { kind, level } ts) = []
  blind : ∀ id d ts us, d.kind.isHolder → f (node id d ts) = f (node id d us)
  paragraph : ∀ id is,
    (node id { kind := .paragraph } (Inline.trees (id + 1) is)).read f = g (.paragraph is)
  heading : ∀ id level is,
    (node id { kind := .heading, level } (Inline.trees (id + 1) is)).read f = g (.heading level is)
  code : ∀ id content, (leaf id { kind := .code, content }).read f = g (.code content)
  join : ∀ id d content, d.kind = .code →
    (leaf id { d with content := d.content ++ content }).read f =
      (leaf id d).read f ++ g (.code content)
  item : ∀ id i, (i.tree id).read f = g (.item i)

namespace Reads
variable {f : Tree → List α} {g : Block → List α}

theorem newList (h : Reads f g) (i : ListItem) (id level : Nat) :
    (i.newList id level).read f = g (.item i) := by
  by_cases hl : level ≤ i.depth
  · rw [ListItem.newList_of_le id hl, read_node,
      h.holder _ _ _ _ (Kind.isHolder_of_isList i.isList_listKind), List.nil_append,
      List.flatMap_singleton]
    exact h.newList i (id + 1) (level + 1)
  · rw [ListItem.newList_of_lt id (by omega), h.item]
termination_by i.depth + 1 - level

/-- An item put into a list is read after all that was there. -/
theorem insert (h : Reads f g) (i : ListItem) (id : Nat) (t : Tree) (ht : t.kind.isList) :
    (i.insert id t).read f = t.read f ++ g (.item i) := by
  induction t with
  | node n d ts ih =>
    have hf (us : List Tree) : f (node n d us) = f (node n d []) :=
      h.blind n d us [] (Kind.isHolder_of_isList ht)
    rw [ListItem.insert]
    split
    · obtain ⟨us, u, rfl, hu, hp⟩ | ⟨-, hp⟩ := i.place_cases id (d.level + 1) ts
      · simp [hf, hp, ih u (by simp) (hu ▸ i.isList_listKind)]
      · simp [hf, hp, h.newList]
    · simp [hf, h.item]

theorem place (h : Reads f g) (i : ListItem) (id : Nat) (ts : List Tree) :
    (i.place id i.depth ts).flatMap (read f) = ts.flatMap (read f) ++ g (.item i) := by
  obtain ⟨us, u, rfl, hu, hp⟩ | ⟨-, hp⟩ := i.place_cases id i.depth ts
  · simp [hp, h.insert i id u (hu ▸ i.isList_listKind)]
  · simp [hp, h.newList]

theorem placeCode (h : Reads f g) (content : String) (id : Nat) {ts : List Tree}
    (hts : CodeIsLeaf ts) :
    (Block.placeCode content id ts).flatMap (read f) =
      ts.flatMap (read f) ++ g (.code content) := by
  obtain ⟨us, n, d, vs, rfl, hd, hp⟩ | ⟨-, hp⟩ := Block.placeCode_cases content id ts
  · have hvs : vs = [] := (codeIsLeaf_concat.1 hts).2 hd
    subst hvs
    rw [hp, List.flatMap_append, List.flatMap_singleton, h.join n d content hd]
    simp
  · rw [hp, List.flatMap_append, List.flatMap_singleton, h.code]

/-- The trees are read as the blocks without the tables, and code has nothing below it. -/
def Agrees (f : Tree → List α) (g : Block → List α) (bs : List Block) (ts : List Tree) : Prop :=
  CodeIsLeaf ts ∧ ts.flatMap (read f) = (Block.leavesOfAll bs).flatMap g

theorem Agrees.concat {bs : List Block} {ts : List Tree} {b : Block} {t : Tree}
    (hts : Agrees f g bs ts) (ht : t.kind = .code → t.children = [])
    (hb : t.read f = b.leaves.flatMap g) : Agrees f g (bs ++ [b]) (ts ++ [t]) := by
  refine ⟨codeIsLeaf_concat.2 ⟨hts.1, ht⟩, ?_⟩
  rw [List.flatMap_append, hts.2, List.flatMap_singleton, hb, Block.leavesOfAll_append]
  simp [Block.leavesOfAll]

theorem flatMap_cells {cells : List (List Block)} {ts : List Tree} (h : Reads f g)
    (hts : List.Forall₂ (Block.IsCell (Agrees f g)) cells ts) :
    ts.flatMap (read f) = (Block.leavesOfCells cells).flatMap g := by
  induction hts with
  | nil => rfl
  | cons hcell hcells ih =>
    obtain ⟨n, us, rfl, hus⟩ := hcell
    rw [List.flatMap_cons, read_node, h.holder _ _ _ _ rfl, hus.2, ih]
    simp [Block.leavesOfCells]

theorem flatMap_rows {rows : List (List (List Block))} {ts : List Tree} (h : Reads f g)
    (hts : List.Forall₂ (Block.IsRow (Agrees f g)) rows ts) :
    ts.flatMap (read f) = (Block.leavesOfRows rows).flatMap g := by
  induction hts with
  | nil => rfl
  | cons hrow hrows ih =>
    obtain ⟨n, us, rfl, hus⟩ := hrow
    rw [List.flatMap_cons, read_node, h.holder _ _ _ _ rfl, h.flatMap_cells hus, ih]
    simp [Block.leavesOfRows]

theorem keeps (h : Reads f g) : Block.Keeps (fun _ => True) (Agrees f g) where
  nil := ⟨by simp [CodeIsLeaf], rfl⟩
  paragraph id bs ts is _ hts := hts.concat (by simp) (by simp [h.paragraph, Block.leaves])
  heading id bs ts level is _ hts := hts.concat (by simp) (by simp [h.heading, Block.leaves])
  code id bs ts content _ hts := by
    refine ⟨hts.1.placeCode content id, ?_⟩
    rw [h.placeCode content id hts.1, hts.2, Block.leavesOfAll_append]
    simp [Block.leavesOfAll, Block.leaves]
  item id bs ts i _ hts := by
    refine ⟨hts.1.place i id, ?_⟩
    rw [h.place i id ts, hts.2, Block.leavesOfAll_append]
    simp [Block.leavesOfAll, Block.leaves]
  table id bs ts rows us hus hts :=
    hts.concat (by simp) (by rw [read_node, h.holder _ _ _ _ rfl, h.flatMap_rows hus]; rfl)

/-- The tree of a body is read as its blocks without the tables, in the same order. -/
theorem ofBlocks (h : Reads f g) (bs : List Block) :
    (Tree.ofBlocks bs).read f = (Block.leavesOfAll bs).flatMap g := by
  rw [Tree.ofBlocks, read_node, h.holder _ _ _ _ rfl]
  exact (h.keeps.placeAll 1 h.keeps.nil bs (by simp)).2

end Reads

end Tree

end RichText
