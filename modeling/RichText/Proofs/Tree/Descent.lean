import RichText.Proofs.Tree.Containers
import RichText.Proofs.Tree.Making

/-!
The way of a list item to its container. From the outermost container the item goes from level to
level, into the last child where that is a container of its kind and into a new one elsewhere, as
long as the container is not as deep as the item. Nested containers are one level deeper than what
they stand in, so the way is as long as the levels are apart.
-/
namespace RichText

namespace Tree

/-- The second node is the parent of the first one, which is its last child. -/
def IsLastChild (t : Tree) (child parent : Nat) : Prop :=
  t.parent? child = some parent ∧ (t.childIds parent).getLast? = some child

theorem isLastChild_hang {k : Ancestor} {l : List Ancestor} {c : Tree}
    (h : (c.hang (k :: l)).Consecutive 0) : (c.hang (k :: l)).IsLastChild c.id k.id := by
  constructor
  · obtain ⟨p, hp, hsubtree⟩ := exists_place_hang l (node k.id k.data (k.older ++ [c]))
    have hmem : c ∈ p.subtree.children := by simp [hsubtree]
    have hchild := mem_placesBelow_child hp hmem
    have habove := ancestors_of_mem_places (t := c.hang (k :: l)) h.nodup_ids hchild
    rw [parent?, habove, hsubtree]
    rfl
  · have hget : (c.hang (k :: l)).get? k.id = some (node k.id k.data (k.older ++ [c])) :=
      get?_hang (l := l) h
    rw [childIds, hget]
    simp

/-- On the chain of last children every node is the last child of the one above it. -/
theorem isChain_hang {l : List Ancestor} {c : Tree} (h : (c.hang l).Consecutive 0) :
    (c.id :: l.map Ancestor.id).IsChain (c.hang l).IsLastChild := by
  induction l generalizing c with
  | nil => exact .singleton _
  | cons k l ih => exact .cons_cons (isLastChild_hang h) (ih h)

end Tree

open RichText.Tree

/-- A tree, and the number of the node in it that is looked at. -/
structure Cursor where
  tree : Tree
  number : Nat

namespace Cursor

def kind? (s : Cursor) : Option Kind := (s.tree.get? s.number).map Tree.kind

/-- The level of the node, if there is one. -/
def level (s : Cursor) : Nat := ((s.tree.get? s.number).map fun c => c.data.level).getD 0

/-- Goes to the last child if that is of the kind, and to a new child of the kind and of a level
otherwise. -/
def enter (k : Kind) (level : Nat) (s : Cursor) : Cursor :=
  match (s.tree.childrenAt s.number).getLast?.filter fun c => c.kind = k with
  | some c => ⟨s.tree, c.id⟩
  | none => ⟨s.tree.append s.number { kind := k, level }, s.tree.size⟩

/-- Goes one level down. -/
def deepen (k : Kind) (s : Cursor) : Cursor := s.enter k (s.level + 1)

/-- A run of the loop that goes down as long as the level is above a depth, by the cursors after
its iterations. -/
inductive Runs (k : Kind) (depth : Nat) : Cursor → List Cursor → Prop
  | stop {s : Cursor} (h : depth ≤ s.level) : Runs k depth s []
  | step {s : Cursor} {ss : List Cursor} (h : s.level < depth)
    (rest : Runs k depth (s.deepen k) ss) : Runs k depth s (s.deepen k :: ss)

theorem Runs.unique {k : Kind} {depth : Nat} {s : Cursor} {ss ss' : List Cursor}
    (h : Runs k depth s ss) (h' : Runs k depth s ss') : ss = ss' := by
  induction h generalizing ss' with
  | stop h =>
    cases h' with
    | stop => rfl
    | step hlt => omega
  | step h _ ih =>
    cases h' with
    | stop hle => omega
    | step _ rest => rw [ih rest]

end Cursor

namespace Tree

/-- A container in a container is one level deeper. -/
def Deepening (t : Tree) : Prop :=
  t.kind.isList → ∀ c ∈ t.children, c.kind.isList → c.data.level = t.data.level + 1

theorem Disciplined.deepening {t : Tree} (h : t.Disciplined) : t.Deepening :=
  fun hl c hc hcl => (h.nested hl c hc hcl).1

end Tree

/-- The cursor is at a container at the end of the chain of last children, in a tree that is
numbered in preorder. -/
structure Cursor.Stands (k : Kind) (s : Cursor) (c : Tree) (l : List Ancestor) : Prop where
  eq : s = ⟨c.hang l, c.id⟩
  consecutive : (c.hang l).Consecutive 0
  kind : c.kind = k
  deepening : c.Everywhere Deepening

namespace Cursor

theorem Stands.get? {k : Kind} {s : Cursor} {c : Tree} {l : List Ancestor} (h : s.Stands k c l) :
    s.tree.get? s.number = some c := by
  rw [h.eq]
  exact get?_hang h.consecutive

theorem Stands.level_eq {k : Kind} {s : Cursor} {c : Tree} {l : List Ancestor}
    (h : s.Stands k c l) : s.level = c.data.level := by
  rw [level, h.get?]
  rfl

theorem Stands.kind?_eq {k : Kind} {s : Cursor} {c : Tree} {l : List Ancestor}
    (h : s.Stands k c l) : s.kind? = some k := by
  rw [kind?, h.get?, ← h.kind]
  rfl

theorem Stands.isChain {k : Kind} {s : Cursor} {c : Tree} {l : List Ancestor}
    (h : s.Stands k c l) : (c.id :: l.map Ancestor.id).IsChain s.tree.IsLastChild := by
  rw [h.eq]
  exact isChain_hang h.consecutive

end Cursor

namespace ListItem

/-- New containers are a new container that the item is put into. -/
theorem newList_eq_insert (i : ListItem) (id : Nat) {level : Nat} (h : level ≤ i.depth) :
    i.newList id level = i.insert (id + 1) (leaf id { kind := i.listKind, level }) := by
  rw [newList_of_le id h, insert, place, List.nil_append]
  split
  · rfl
  · rw [newList_of_lt _ (by simp only at *; omega)]

end ListItem

namespace Cursor
variable {l : List Ancestor} {n : Nat} {d : Node} {ts : List Tree}

/-- Where a cursor goes from the end of the chain: to the last child, or to a new one. -/
theorem enter_hang (k : Kind) (level : Nat) (h : ((node n d ts).hang l).Consecutive 0) :
    (∃ us c, ts = us ++ [c] ∧ c.kind = k ∧
      enter k level ⟨(node n d ts).hang l, n⟩ = ⟨c.hang (⟨n, d, us⟩ :: l), c.id⟩) ∨
    (∀ c ∈ ts.getLast?, c.kind ≠ k) ∧
      enter k level ⟨(node n d ts).hang l, n⟩ =
        ⟨(leaf ((node n d ts).hang l).size { kind := k, level }).hang (⟨n, d, ts⟩ :: l),
          ((node n d ts).hang l).size⟩ := by
  have happend : ((node n d ts).hang l).append n { kind := k, level } =
      (leaf ((node n d ts).hang l).size { kind := k, level }).hang (⟨n, d, ts⟩ :: l) :=
    (writes_append h { kind := k, level }).foldl_eq
  rw [enter, childrenAt_hang h]
  cases hlast : ts.getLast?.filter fun c => c.kind = k with
  | some c =>
    obtain ⟨hc, hk⟩ := Option.filter_eq_some_iff.1 hlast
    obtain ⟨us, rfl⟩ := List.getLast?_eq_some_iff.1 hc
    exact .inl ⟨us, c, rfl, by simpa using hk, rfl⟩
  | none =>
    rw [Option.filter_eq_none_iff] at hlast
    exact .inr ⟨fun c hc => by simpa using hlast c hc, by rw [← happend]⟩

/-- The cursor that an item goes to from the end of the chain is at a container of its kind there,
and that is where the item goes. -/
theorem exists_stands_enter (i : ListItem) {level : Nat} (hlevel : level ≤ i.depth)
    (h : ((node n d ts).hang l).Consecutive 0) (hts : ∀ c ∈ ts, c.Everywhere Deepening) :
    ∃ us c,
      (enter i.listKind level ⟨(node n d ts).hang l, n⟩).Stands i.listKind c (⟨n, d, us⟩ :: l) ∧
      (c ∈ ts ∨ c.data.level = level) ∧
      (node n d (i.place ((node n d ts).hang l).size level ts)).hang l =
        (i.insert (c.hang (⟨n, d, us⟩ :: l)).size c).hang (⟨n, d, us⟩ :: l) := by
  obtain ⟨us, c, rfl, hk, henter⟩ | ⟨hlast, henter⟩ := enter_hang i.listKind level h
  · refine ⟨us, c, ⟨henter, h, hk, hts c (by simp)⟩, .inl (by simp), ?_⟩
    rw [ListItem.place_concat, if_pos hk]
    rfl
  · have hleaf := consecutive_hang_append h
      (consecutiveAll_singleton.2 (consecutive_leaf _ { kind := i.listKind, level }))
    have hplace : i.place ((node n d ts).hang l).size level ts =
        ts ++ [i.newList ((node n d ts).hang l).size level] := by
      obtain ⟨us, c, rfl, hk, -⟩ | ⟨-, hp⟩ := i.place_cases ((node n d ts).hang l).size level ts
      · exact absurd hk (hlast c (by simp))
      · exact hp
    have hsize : ((leaf ((node n d ts).hang l).size { kind := i.listKind, level }).hang
        (⟨n, d, ts⟩ :: l)).size = ((node n d ts).hang l).size + 1 := by
      rw [hang, size_hang hleaf, sizeAll_concat, size_hang h]
      rfl
    refine ⟨ts, _, ⟨henter, hleaf, rfl, ?_⟩, .inr rfl, ?_⟩
    · exact everywhere_leaf.2 fun _ c hc => absurd hc List.not_mem_nil
    · rw [hplace, ListItem.newList_eq_insert i _ hlevel, hsize]
      rfl

/-- One iteration goes to a container in the container, one level deeper, and leaves where the item
goes. -/
theorem Stands.deepen {i : ListItem} {s : Cursor} {c : Tree} (h : s.Stands i.listKind c l)
    (hlt : s.level < i.depth) :
    ∃ us c', (s.deepen i.listKind).Stands i.listKind c' (⟨c.id, c.data, us⟩ :: l) ∧
      (s.deepen i.listKind).level = s.level + 1 ∧
      (i.insert (c.hang l).size c).hang l =
        (i.insert (c'.hang (⟨c.id, c.data, us⟩ :: l)).size c').hang (⟨c.id, c.data, us⟩ :: l) := by
  cases c with
  | node n d ts =>
    have hs : s = ⟨(node n d ts).hang l, n⟩ := h.eq
    have hlevel : s.level = d.level := h.level_eq
    have hdepth : d.level + 1 ≤ i.depth := hlevel ▸ hlt
    have hts : ∀ c ∈ ts, c.Everywhere Deepening := fun c hc => h.deepening.child hc
    obtain ⟨us, c, hc, hfound, hplace⟩ := exists_stands_enter i hdepth h.consecutive hts
    rw [← hs, ← hlevel, ← Cursor.deepen] at hc
    refine ⟨us, c, hc, ?_, ?_⟩
    · rw [hc.level_eq, hlevel]
      obtain hmem | hnew := hfound
      · exact h.deepening.self (h.kind ▸ i.isList_listKind : (node n d ts).kind.isList) c hmem
          (hc.kind ▸ i.isList_listKind)
      · exact hnew
    · rw [ListItem.insert, if_pos (Nat.lt_of_succ_le hdepth)]
      exact hplace

/-- An item that is not deeper goes below the container. -/
theorem Stands.foldl_appends {i : ListItem} {s : Cursor} {c : Tree} (h : s.Stands i.listKind c l)
    (hle : i.depth ≤ s.level) : ((i.tree s.tree.size).appends s.number).foldl edit s.tree =
      (i.insert (c.hang l).size c).hang l := by
  cases c with
  | node n d ts =>
    have hdepth : ¬ d.level < i.depth := by
      rw [h.level_eq] at hle
      exact Nat.not_lt.2 hle
    have hwrites := writes_appends (i.tree ((node n d ts).hang l).size) h.consecutive
      (consecutive_line _ _ _)
    rw [h.eq, ListItem.insert, if_neg hdepth]
    exact hwrites.foldl_eq

/-- The loop ends, since the container gets nearer to the depth of the item. -/
theorem Stands.exists_runs {i : ListItem} {s : Cursor} {c : Tree} {l : List Ancestor}
    (h : s.Stands i.listKind c l) : ∃ ss, Runs i.listKind i.depth s ss := by
  by_cases hle : i.depth ≤ s.level
  · exact ⟨[], .stop hle⟩
  · obtain ⟨us, c', hc, hlevel, -⟩ := h.deepen (by omega)
    obtain ⟨ss, hss⟩ := hc.exists_runs
    exact ⟨_, .step (by omega) hss⟩
termination_by i.depth - s.level

section
variable {i : ListItem} {s : Cursor} {c : Tree}

theorem Runs.length_eq {ss : List Cursor} (hruns : Runs i.listKind i.depth s ss)
    (h : s.Stands i.listKind c l) : ss.length = i.depth - s.level := by
  induction hruns generalizing c l with
  | stop hle => rw [List.length_nil, Nat.sub_eq_zero_of_le hle]
  | step hlt _ ih =>
    obtain ⟨us, c', hc, hlevel, -⟩ := h.deepen hlt
    rw [List.length_cons, ih hc, hlevel]
    omega

/-- An iteration goes to a container of the kind that is one level deeper. -/
def Deeper (k : Kind) (s s' : Cursor) : Prop := s'.kind? = some k ∧ s'.level = s.level + 1

theorem Runs.isChain {ss : List Cursor} (hruns : Runs i.listKind i.depth s ss)
    (h : s.Stands i.listKind c l) : (s :: ss).IsChain (Deeper i.listKind) := by
  induction hruns generalizing c l with
  | stop => exact .singleton _
  | step hlt _ ih =>
    obtain ⟨us, c', hc, hlevel, -⟩ := h.deepen hlt
    exact .cons_cons ⟨hc.kind?_eq, hlevel⟩ (ih hc)

/-- Where the loop ends, the containers that it went through are the nearest ancestors, and the item
goes into the last one. -/
theorem Runs.exists_stands {ss : List Cursor} (hruns : Runs i.listKind i.depth s ss)
    (h : s.Stands i.listKind c l) : ∃ c' l', (ss.getLastD s).Stands i.listKind c' l' ∧
      (ss.getLastD s).level = max s.level i.depth ∧
      c'.id :: l'.map Ancestor.id = (ss.map number).reverse ++ c.id :: l.map Ancestor.id ∧
      (i.insert (c.hang l).size c).hang l = (i.insert (c'.hang l').size c').hang l' := by
  induction hruns generalizing c l with
  | stop hle => exact ⟨c, l, h, (max_eq_left hle).symm, rfl, rfl⟩
  | @step s _ hlt _ ih =>
    obtain ⟨us, c', hc, hlevel, hinsert⟩ := h.deepen hlt
    obtain ⟨c₁, l₁, hend, hmax, hids, hinsert₁⟩ := ih hc
    rw [List.getLastD_cons]
    refine ⟨c₁, l₁, hend, ?_, ?_, hinsert.trans hinsert₁⟩
    · rw [hmax, hlevel, max_eq_right hlt, max_eq_right (Nat.le_of_lt hlt)]
    · have hnumber : (deepen i.listKind s).number = c'.id := congrArg number hc.eq
      rw [hids, List.map_cons, List.map_cons, hnumber, List.reverse_cons, List.append_assoc]
      rfl

theorem Runs.level_last {ss : List Cursor} (hruns : Runs i.listKind i.depth s ss)
    (h : s.Stands i.listKind c l) : (ss.getLastD s).level = max s.level i.depth := by
  obtain ⟨_, _, -, hlevel, -, -⟩ := hruns.exists_stands h
  exact hlevel

theorem Runs.isChain_last {ss : List Cursor} (hruns : Runs i.listKind i.depth s ss)
    (h : s.Stands i.listKind c l) :
    ((ss.map number).reverse ++ c.id :: l.map Ancestor.id).IsChain
      (ss.getLastD s).tree.IsLastChild := by
  obtain ⟨_, _, hlast, -, hids, -⟩ := hruns.exists_stands h
  rw [← hids]
  exact hlast.isChain

/-- The item below the last container is the item that goes into the first one. -/
theorem Runs.foldl_appends {ss : List Cursor} (hruns : Runs i.listKind i.depth s ss)
    (h : s.Stands i.listKind c l) :
    ((i.tree (ss.getLastD s).tree.size).appends (ss.getLastD s).number).foldl edit
      (ss.getLastD s).tree = (i.insert (c.hang l).size c).hang l := by
  obtain ⟨c', l', hlast, hlevel, -, hinsert⟩ := hruns.exists_stands h
  have hdepth : i.depth ≤ (ss.getLastD s).level := hlevel ▸ le_max_right _ _
  rw [hlast.foldl_appends hdepth, hinsert]

end

end Cursor

end RichText
