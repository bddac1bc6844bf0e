import RichText.Proofs.Tree.Appending
import RichText.Proofs.Tree.Growth

/-!
Edits of a tree by the numbers of its nodes: a node is appended below a node, or text is added
behind the content of a node. Edits on the way down from the root along the last children, of a tree
whose numbers go up in preorder, change the end of that way and nothing else.
-/
namespace RichText

/-- A change to a tree at the node of a number. -/
inductive Edit where
  /-- A new node behind the children of the node. -/
  | append (parent : Nat) (data : Node)
  /-- More text behind the content of the node. -/
  | extend (target : Nat) (more : String)
  deriving DecidableEq, Repr

def Edit.target : Edit → Nat
  | append n _ | extend n _ => n

namespace Tree

mutual
/-- Adds text behind the content of every node of that number. -/
def extendAt (target : Nat) (more : String) : Tree → Tree
  | node i d ts =>
    node i (if i = target then { d with content := d.content ++ more } else d)
      (extendAtAll target more ts)
def extendAtAll (target : Nat) (more : String) : List Tree → List Tree
  | [] => []
  | t :: ts => extendAt target more t :: extendAtAll target more ts
end

/-- Makes a change. -/
def edit (t : Tree) : Edit → Tree
  | .append parent d => t.append parent d
  | .extend target more => t.extendAt target more

mutual
/-- The changes that make a tree below a node, each node before those below it. -/
def appends (parent : Nat) : Tree → List Edit
  | node i d ts => .append parent d :: appendsAll i ts
def appendsAll (parent : Nat) : List Tree → List Edit
  | [] => []
  | t :: ts => appends parent t ++ appendsAll parent ts
end

/-! ### The chain of last children -/

/-- A node on the way to the last child, with its older children. -/
structure Ancestor where
  id : Nat
  data : Node
  older : List Tree

/-- A tree at the end of a chain of last children, below nodes given from the nearest upward. -/
def hang (s : Tree) : List Ancestor → Tree
  | [] => s
  | k :: l => hang (node k.id k.data (k.older ++ [s])) l

theorem lastChain_subset_hang (l : List Ancestor) (s : Tree) :
    s.lastChain ⊆ (s.hang l).lastChain := by
  induction l generalizing s with
  | nil => exact List.Subset.refl _
  | cons k l ih =>
    have hlast : lastChainAll (k.older ++ [s]) = s.lastChain :=
      lastChainAll_of_getLast? (by simp)
    have hnode : s.lastChain ⊆ (node k.id k.data (k.older ++ [s])).lastChain := by
      rw [lastChain, hlast]
      exact List.subset_cons_self _ _
    exact List.Subset.trans hnode (ih _)

theorem mem_preorder_hang (l : List Ancestor) (s : Tree) : s ∈ (s.hang l).preorder := by
  have htrans (t : Tree) (hst : s ∈ t.preorder) : s ∈ (t.hang l).preorder := by
    induction l generalizing t with
    | nil => exact hst
    | cons k l ih =>
      have hchild : t ∈ (node k.id k.data (k.older ++ [t])).children := by simp
      exact ih _ (mem_preorder_of_child hchild hst)
  exact htrans s (self_mem_preorder s)

theorem Consecutive.id_eq {t : Tree} {first : Nat} (h : t.Consecutive first) : t.id = first := by
  cases t
  exact (consecutive_node.1 h).1

theorem Consecutive.nodup_ids {t : Tree} {first : Nat} (h : t.Consecutive first) : t.ids.Nodup := by
  rw [h]
  exact List.nodup_range'

/-- The numbers at the end of the chain are the last numbers of the whole. -/
theorem Consecutive.of_hang {l : List Ancestor} {s : Tree} {first : Nat}
    (h : (s.hang l).Consecutive first) :
    s.Consecutive s.id ∧ s.id + s.size = first + (s.hang l).size := by
  induction l generalizing s with
  | nil =>
    have hid : s.id = first := h.id_eq
    exact ⟨hid ▸ h, hid ▸ rfl⟩
  | cons k l ih =>
    obtain ⟨hnode, hsize⟩ := ih h
    obtain ⟨-, hs⟩ := consecutiveAll_concat.1 (consecutive_node.1 hnode).2
    rw [id_node, size_node, sizeAll_concat] at hsize
    have hid : s.id = k.id + 1 + sizeAll k.older := hs.id_eq
    refine ⟨hid ▸ hs, ?_⟩
    rw [hang]
    omega

/-- Another end of the chain with numbers from the same one on. -/
theorem Consecutive.hang {l : List Ancestor} {s s' : Tree} {first : Nat}
    (h : (s.hang l).Consecutive first) (hs' : s'.Consecutive s.id) :
    (s'.hang l).Consecutive first := by
  induction l generalizing s s' with
  | nil =>
    have hid : s.id = first := h.id_eq
    exact hid ▸ hs'
  | cons k l ih =>
    have hnode := (of_hang (l := l) h).1
    obtain ⟨holder, hs⟩ := consecutiveAll_concat.1 (consecutive_node.1 hnode).2
    apply ih h
    rw [hs.id_eq] at hs'
    exact (consecutiveAll_concat.2 ⟨holder, hs'⟩).node k.data

/-! ### Edits at the end of the chain -/

/-- Makes a change, with the number of a new node given. -/
def editAs (new : Nat) (t : Tree) : Edit → Tree
  | .append parent d => addUnder parent (leaf new d) t
  | .extend target more => t.extendAt target more

theorem edit_eq_editAs (t : Tree) (e : Edit) : t.edit e = t.editAs t.size e := by
  cases e <;> rfl

theorem extendAtAll_eq_map (target : Nat) (more : String) (ts : List Tree) :
    extendAtAll target more ts = ts.map (extendAt target more) := by
  induction ts with
  | nil => rfl
  | cons t ts ih => rw [extendAtAll, ih, List.map_cons]

section
variable {new : Nat} {e : Edit}

theorem editAs_node {i : Nat} (hi : i ≠ e.target) (d : Node) (ts : List Tree) :
    (node i d ts).editAs new e = node i d (ts.map fun t => t.editAs new e) := by
  cases e with
  | append parent data =>
    have hne : i ≠ parent := hi
    rw [editAs, addUnder, if_neg hne, List.append_nil, addUnderAll_eq_map]
    rfl
  | extend target more =>
    have hne : i ≠ target := hi
    rw [editAs, extendAt, if_neg hne, extendAtAll_eq_map]
    rfl

theorem editAs_of_not_mem {t : Tree} (ht : e.target ∉ t.ids) : t.editAs new e = t := by
  induction t with
  | node i d ts ih =>
    rw [ids_node, List.mem_cons, List.mem_flatMap, not_or] at ht
    have hts : ∀ t ∈ ts, t.editAs new e = t := fun t htts =>
      ih t htts fun hmem => ht.2 ⟨t, htts, hmem⟩
    rw [editAs_node (Ne.symm ht.1), List.map_congr_left hts, List.map_id']

theorem map_editAs {ts : List Tree} (h : e.target ∉ ts.flatMap ids) :
    (ts.map fun t => t.editAs new e) = ts := by
  have hts : ∀ t ∈ ts, t.editAs new e = t := fun t ht =>
    editAs_of_not_mem fun hmem => h (List.mem_flatMap.2 ⟨t, ht, hmem⟩)
  rw [List.map_congr_left hts, List.map_id']

/-- A change at the end of the chain or below it leaves the chain as it is. -/
theorem editAs_hang {l : List Ancestor} {s : Tree} {first : Nat}
    (h : (s.hang l).Consecutive first) (he : e.target ∈ s.ids) :
    (s.hang l).editAs new e = (s.editAs new e).hang l := by
  induction l generalizing s with
  | nil => rfl
  | cons k l ih =>
    have hnodup := (Consecutive.of_hang (l := l) h).1.nodup_ids
    rw [ids_node, List.nodup_cons, List.flatMap_append, List.flatMap_singleton,
      List.nodup_append] at hnodup
    obtain ⟨hl, -, -, hdisjoint⟩ := hnodup
    have hne : k.id ≠ e.target := by
      intro hid
      exact hl (List.mem_append_right _ (hid ▸ he))
    have holder : e.target ∉ k.older.flatMap ids := fun hmem => hdisjoint _ hmem _ he rfl
    have hnode : e.target ∈ (node k.id k.data (k.older ++ [s])).ids := by
      rw [ids_node, List.flatMap_append, List.flatMap_singleton]
      exact List.mem_cons_of_mem _ (List.mem_append_right _ he)
    have hend : (node k.id k.data (k.older ++ [s])).editAs new e =
        node k.id k.data (k.older ++ [s.editAs new e]) := by
      rw [editAs_node hne, List.map_append, map_editAs holder]
      rfl
    rw [hang, ih h hnode, hend]
    rfl

theorem editAs_append_self {n : Nat} {ts : List Tree} (hn : n ∉ ts.flatMap ids) (d data : Node) :
    (node n d ts).editAs new (.append n data) = node n d (ts ++ [leaf new data]) := by
  have hts : addUnderAll n (leaf new data) ts = ts :=
    addUnderAll_of_not_mem _ ts fun t ht hmem => hn (List.mem_flatMap.2 ⟨t, ht, hmem⟩)
  rw [editAs, addUnder, hts, if_pos rfl]

theorem editAs_extend_self {n : Nat} {ts : List Tree} (hn : n ∉ ts.flatMap ids) (d : Node)
    (more : String) :
    (node n d ts).editAs new (.extend n more) =
      node n { d with content := d.content ++ more } ts := by
  have hts : (ts.map fun t => t.editAs new (.extend n more)) = ts := map_editAs hn
  rw [editAs, extendAt, if_pos rfl, extendAtAll_eq_map]
  exact congrArg (node n _) hts

end

/-- Changes one after the other, each at a node on the chain of last children by then. -/
inductive Writes : Tree → List Edit → Tree → Prop
  | nil (t : Tree) : Writes t [] t
  | cons {t u : Tree} {e : Edit} {es : List Edit} (he : e.target ∈ t.lastChain.map id)
    (h : Writes (t.edit e) es u) : Writes t (e :: es) u

namespace Writes
variable {t u v : Tree} {es fs : List Edit}

theorem single {e : Edit} (he : e.target ∈ t.lastChain.map id) : Writes t [e] (t.edit e) :=
  .cons he (.nil _)

theorem append (h : Writes t es u) (h' : Writes u fs v) : Writes t (es ++ fs) v := by
  induction h with
  | nil => exact h'
  | cons he _ ih => exact .cons he (ih h')

theorem foldl_eq (h : Writes t es u) : es.foldl edit t = u := by
  induction h with
  | nil => rfl
  | cons _ _ ih => exact ih

theorem target_mem (h : Writes t es u) {before after : List Edit} {e : Edit}
    (hes : es = before ++ e :: after) :
    e.target ∈ (before.foldl edit t).lastChain.map id := by
  induction h generalizing before with
  | nil => simp at hes
  | cons he _ ih =>
    cases before with
    | nil =>
      obtain ⟨rfl, -⟩ := List.cons.inj hes
      exact he
    | cons b before =>
      obtain ⟨rfl, hrest⟩ := List.cons.inj hes
      exact ih hrest

end Writes

section
variable {l : List Ancestor} {n : Nat} {d : Node} {ts : List Tree}
  (h : ((node n d ts).hang l).Consecutive 0)
include h

/-- The number of a new node is that behind the nodes at the end of the chain. -/
theorem size_hang : ((node n d ts).hang l).size = n + 1 + sizeAll ts := by
  have hsize := h.of_hang.2
  rw [id_node, size_node] at hsize
  omega

theorem not_mem_flatMap_ids : n ∉ ts.flatMap ids := by
  have hnodup := h.of_hang.1.nodup_ids
  rw [ids_node, List.nodup_cons] at hnodup
  exact hnodup.1

theorem consecutiveAll_of_hang : ConsecutiveAll (n + 1) ts :=
  (consecutive_node.1 h.of_hang.1).2

omit h in
theorem target_mem_hang {e : Edit} (he : e.target = n) :
    e.target ∈ ((node n d ts).hang l).lastChain.map id := by
  refine List.mem_map.2 ⟨node n d ts, lastChain_subset_hang l _ (self_mem_lastChain _), ?_⟩
  exact he.symm

theorem edit_hang {e : Edit} (he : e.target = n) :
    ((node n d ts).hang l).edit e =
      ((node n d ts).editAs ((node n d ts).hang l).size e).hang l := by
  have hmem : e.target ∈ (node n d ts).ids := by
    rw [ids_node, he]
    exact List.mem_cons_self
  rw [edit_eq_editAs, editAs_hang h hmem]

theorem writes_append (data : Node) :
    Writes ((node n d ts).hang l) [.append n data]
      ((node n d (ts ++ [leaf ((node n d ts).hang l).size data])).hang l) := by
  have hedit := edit_hang h (e := .append n data) rfl
  rw [editAs_append_self (not_mem_flatMap_ids h)] at hedit
  rw [← hedit]
  exact .single (target_mem_hang rfl)

theorem writes_extend (more : String) :
    Writes ((node n d ts).hang l) [.extend n more]
      ((node n { d with content := d.content ++ more } ts).hang l) := by
  have hedit := edit_hang h (e := .extend n more) rfl
  rw [editAs_extend_self (not_mem_flatMap_ids h)] at hedit
  rw [← hedit]
  exact .single (target_mem_hang rfl)

/-- More trees below the node at the end of the chain. -/
theorem consecutive_hang_append {us : List Tree}
    (hus : ConsecutiveAll ((node n d ts).hang l).size us) :
    ((node n d (ts ++ us)).hang l).Consecutive 0 := by
  rw [size_hang h] at hus
  exact h.hang ((consecutiveAll_append.2 ⟨consecutiveAll_of_hang h, hus⟩).node d)

end

mutual
theorem writes_appends : ∀ (t : Tree) {l : List Ancestor} {n : Nat} {d : Node} {ts : List Tree},
    ((node n d ts).hang l).Consecutive 0 → t.Consecutive ((node n d ts).hang l).size →
    Writes ((node n d ts).hang l) (t.appends n) ((node n d (ts ++ [t])).hang l)
  | node i e us, l, n, d, ts, h, ht => by
    obtain ⟨rfl, hus⟩ := consecutive_node.1 ht
    have hleaf := consecutive_hang_append h (consecutiveAll_singleton.2 (consecutive_leaf _ e))
    have hsize := size_hang (l := ⟨n, d, ts⟩ :: l) hleaf
    have hall := writes_appendsAll us (l := ⟨n, d, ts⟩ :: l) hleaf (hsize ▸ hus)
    rw [appends]
    exact (writes_append h e).append hall
theorem writes_appendsAll : ∀ (us : List Tree) {l : List Ancestor} {n : Nat} {d : Node}
    {ts : List Tree}, ((node n d ts).hang l).Consecutive 0 →
    ConsecutiveAll ((node n d ts).hang l).size us →
    Writes ((node n d ts).hang l) (appendsAll n us) ((node n d (ts ++ us)).hang l)
  | [], _, _, _, ts, _, _ => by
    rw [appendsAll, List.append_nil]
    exact .nil _
  | u :: us, l, n, d, ts, h, hus => by
    obtain ⟨hu, hrest⟩ := consecutiveAll_cons.1 hus
    have hnext := consecutive_hang_append h (consecutiveAll_singleton.2 hu)
    have hsize : ((node n d (ts ++ [u])).hang l).size = ((node n d ts).hang l).size + u.size := by
      rw [size_hang h, size_hang hnext, sizeAll_concat]
      omega
    have hall := writes_appendsAll us hnext (hsize ▸ hrest)
    rw [List.append_assoc] at hall
    rw [appendsAll]
    exact (writes_appends u h hu).append hall
end

end Tree

end RichText
