import Mathlib.Algebra.BigOperators.Group.List.Basic
import Mathlib.Algebra.GroupWithZero.Nat
import RichText.Command.Run
import RichText.Proofs.Tree.Appending
import RichText.Proofs.Tree.Order

/-!
How the nodes of a tree hang together by number. Appending writes two links, the parent of the new
node and the new node behind the other children of its parent. Whatever was appended, the two agree,
a parent has a smaller number than its children, and going up by parents or down by children comes
to an end, each node met once.
-/
namespace RichText

namespace Tree

/-- A walk with a stack of the numbers still to be visited. The topmost number is visited, and its
children are put on the stack in its place, the first of them topmost. -/
inductive Walk (t : Tree) : List Nat → List Nat → Prop
  | done : Walk t [] []
  | visit {n : Nat} {stack visited : List Nat} (h : Walk t (t.childIds n ++ stack) visited) :
    Walk t (n :: stack) (n :: visited)

/-- The way up from a number, if there is one, to its parent and on. -/
inductive Climb (t : Tree) : Option Nat → List Nat → Prop
  | done : Climb t none []
  | up {n : Nat} {above : List Nat} (h : Climb t (t.parent? n) above) :
    Climb t (some n) (n :: above)

/-- How the nodes hang together. -/
structure Linked (t : Tree) : Prop where
  /-- The root alone has no parent. -/
  parent?_eq_none_iff : ∀ n < t.size, t.parent? n = none ↔ n = 0
  /-- A number is once among the children of its parent, and among no others. -/
  count_childIds : ∀ p n, (t.childIds p).count n = if t.parent? n = some p then 1 else 0
  lt_of_parent? : ∀ p n, t.parent? n = some p → p < n
  childIds_increasing : ∀ p, (t.childIds p).Pairwise (· < ·)
  /-- The ancestors are met on the way up. -/
  climb : ∀ n < t.size, t.Climb (t.parent? n) (t.ancestors n)
  ancestors_decreasing : ∀ n < t.size, (n :: t.ancestors n).Pairwise (· > ·)
  ancestors_end : ∀ n < t.size, (n :: t.ancestors n).getLast? = some 0
  /-- The descendants are visited on a walk. -/
  walk : ∀ n < t.size, t.Walk [n] (t.descendants n)
  nodup_descendants : ∀ n, (t.descendants n).Nodup
  mem_descendants_iff : ∀ n < t.size, ∀ j,
    j ∈ t.descendants n ↔ j < t.size ∧ (j = n ∨ n ∈ t.ancestors j)
  /-- A node comes before what hangs from it, and what hangs from siblings in their order. -/
  descendants_eq : ∀ n < t.size, t.descendants n = n :: (t.childIds n).flatMap t.descendants
  length_descendants : (t.descendants 0).length = t.size

/-- The numbers are those below the size, that of the root is zero, and a node has a smaller number
than its children, which stand in the order of their numbers. -/
structure Ordered (t : Tree) : Prop where
  perm : t.ids.Perm (List.range t.size)
  root : t.id = 0
  increasing : t.Everywhere fun s => (s.id :: s.children.map id).Pairwise (· < ·)

section
variable {t : Tree}

theorem ids_sublist_of_mem_preorder {s : Tree} (hs : s ∈ t.preorder) : s.ids.Sublist t.ids := by
  induction t with
  | node i d ts ih =>
    rw [preorder, List.mem_cons, mem_preorderAll] at hs
    obtain rfl | ⟨u, hu, hsu⟩ := hs
    · exact List.Sublist.refl _
    · have hts : u.ids.Sublist (ts.flatMap ids) :=
        List.sublist_flatten_of_mem (List.mem_map_of_mem hu)
      rw [ids_node]
      exact ((ih u hu hsu).trans hts).cons i

variable (ht : t.ids.Nodup)
include ht

theorem childIds_of_mem_places {q : Place} (hq : q ∈ t.places) :
    t.childIds q.subtree.id = q.subtree.children.map id := by
  rw [childIds, get?_of_mem_places ht hq]

theorem descendants_of_mem_places {q : Place} (hq : q ∈ t.places) :
    t.descendants q.subtree.id = q.subtree.ids := by
  rw [descendants, get?_of_mem_places ht hq]

/-- The parent of a number is the one among whose children it is. -/
theorem parent?_eq_some_iff {p n : Nat} : t.parent? n = some p ↔ n ∈ t.childIds p := by
  constructor
  · intro h
    obtain ⟨q, hq⟩ : ∃ q, t.locate? n = some q := by
      rw [← Option.isSome_iff_exists]
      cases hn : t.locate? n with
      | none => simp [parent?, ancestors, hn] at h
      | some q => rfl
    obtain ⟨hmem, rfl⟩ := mem_places_of_locate? hq
    rw [parent?, ancestors_of_mem_places ht hmem] at h
    obtain rfl | ⟨q', hq', hchild, habove⟩ := eq_or_child_of_mem_placesBelow hmem
    · cases h
    · rw [habove] at h
      obtain rfl := Option.some.inj h
      rw [childIds_of_mem_places ht hq']
      exact List.mem_map_of_mem hchild
  · intro h
    cases hget : t.get? p with
    | none => simp [childIds, hget] at h
    | some s =>
      obtain ⟨q, hq, rfl⟩ := Option.map_eq_some_iff.1 hget
      obtain ⟨hmem, rfl⟩ := mem_places_of_locate? hq
      rw [childIds_of_mem_places ht hmem] at h
      obtain ⟨c, hc, rfl⟩ := List.mem_map.1 h
      rw [parent?, ancestors_of_mem_places ht (mem_placesBelow_child hmem hc)]
      rfl

/-- The ancestors are the parent and its ancestors. -/
theorem ancestors_eq (n : Nat) :
    t.ancestors n = (t.parent? n).elim [] fun p => p :: t.ancestors p := by
  cases hn : t.locate? n with
  | none => simp [parent?, ancestors, hn]
  | some q =>
    obtain ⟨hq, rfl⟩ := mem_places_of_locate? hn
    rw [parent?, ancestors_of_mem_places ht hq]
    obtain rfl | ⟨q', hq', -, habove⟩ := eq_or_child_of_mem_placesBelow hq
    · rfl
    · rw [habove, List.map_cons, List.head?_cons, Option.elim_some, ancestors_of_mem_places ht hq']

/-- The descendants are the node and the descendants of its children, one child after the other. -/
theorem descendants_eq {n : Nat} (hn : n ∈ t.ids) :
    t.descendants n = n :: (t.childIds n).flatMap t.descendants := by
  obtain ⟨q, hq, rfl⟩ := exists_mem_places hn
  have hbelow (cs : List Tree) (hcs : ∀ c ∈ cs, c ∈ q.subtree.children) :
      (cs.map id).flatMap t.descendants = cs.flatMap ids := by
    induction cs with
    | nil => rfl
    | cons c cs ih =>
      rw [List.forall_mem_cons] at hcs
      rw [List.map_cons, List.flatMap_cons, List.flatMap_cons, ih hcs.2,
        ← descendants_of_mem_places ht (mem_placesBelow_child hq hcs.1)]
  rw [descendants_of_mem_places ht hq, childIds_of_mem_places ht hq, hbelow _ fun _ hc => hc]
  cases q.subtree
  exact ids_node _ _ _

theorem nodup_descendants (n : Nat) : (t.descendants n).Nodup := by
  rw [descendants]
  cases hn : t.get? n with
  | none => exact List.nodup_nil
  | some s =>
    obtain ⟨q, hq, rfl⟩ := Option.map_eq_some_iff.1 hn
    obtain ⟨hmem, -⟩ := mem_places_of_locate? hq
    exact (ids_sublist_of_mem_preorder (mem_preorder_of_mem_places hmem)).nodup ht

/-- A walk from the node at a place visits what hangs from it, and goes on with the stack. -/
theorem walk_ids {q : Place} (hq : q ∈ t.places) {stack visited : List Nat}
    (h : t.Walk stack visited) : t.Walk (q.subtree.id :: stack) (q.subtree.ids ++ visited) := by
  obtain ⟨above, s⟩ := q
  induction s generalizing above stack visited with
  | node i d cs ih =>
    have hcs (us : List Tree) (hus : ∀ u ∈ us, u ∈ cs) :
        t.Walk (us.map id ++ stack) (us.flatMap ids ++ visited) := by
      induction us with
      | nil => exact h
      | cons u us ihus =>
        rw [List.forall_mem_cons] at hus
        rw [List.flatMap_cons, List.append_assoc]
        exact ih u hus.1 (ihus hus.2) ((i, d) :: above) (mem_placesBelow_child hq hus.1)
    have hchildren : t.childIds i = cs.map id := childIds_of_mem_places ht hq
    have hall := hcs cs fun _ hu => hu
    rw [← hchildren] at hall
    rw [ids_node]
    exact .visit hall

end

theorem map_id_sublist (ts : List Tree) : (ts.map id).Sublist (ts.flatMap ids) := by
  induction ts with
  | nil => exact List.Sublist.refl _
  | cons t ts ih =>
    obtain ⟨i, d, us⟩ := t
    rw [List.map_cons, List.flatMap_cons, ids_node, List.cons_append]
    exact (ih.trans (List.sublist_append_right _ _)).cons_cons i

/-! ### Trees in order -/

namespace Ordered
variable {t : Tree} (h : t.Ordered)
include h

theorem nodup_ids : t.ids.Nodup := h.perm.nodup_iff.2 List.nodup_range

theorem mem_ids_iff {n : Nat} : n ∈ t.ids ↔ n < t.size := by
  rw [h.perm.mem_iff, List.mem_range]

theorem childIds_increasing (p : Nat) : (p :: t.childIds p).Pairwise (· < ·) := by
  by_cases hp : p < t.size
  · obtain ⟨q, hq, rfl⟩ := exists_mem_places (h.mem_ids_iff.2 hp)
    rw [childIds_of_mem_places h.nodup_ids hq]
    exact h.increasing _ (mem_preorder_of_mem_places hq)
  · rw [childIds, get?, locate?_eq_none (fun hmem => hp (h.mem_ids_iff.1 hmem))]
    exact List.pairwise_singleton _ p

theorem lt_of_parent? {p n : Nat} (hp : t.parent? n = some p) : p < n ∧ n < t.size := by
  have hn : n ∈ t.childIds p := (parent?_eq_some_iff h.nodup_ids).1 hp
  refine ⟨List.rel_of_pairwise_cons (h.childIds_increasing p) hn, ?_⟩
  rw [← h.mem_ids_iff]
  by_contra hnot
  rw [parent?, ancestors, locate?_eq_none hnot] at hp
  cases hp

theorem count_childIds (p n : Nat) :
    (t.childIds p).count n = if t.parent? n = some p then 1 else 0 := by
  have hnodup : (t.childIds p).Nodup := by
    exact ((h.childIds_increasing p).of_cons).imp fun hlt => Nat.ne_of_lt hlt
  split
  · rename_i hp
    exact List.count_eq_one_of_mem hnodup ((parent?_eq_some_iff h.nodup_ids).1 hp)
  · rename_i hp
    exact List.count_eq_zero.2 fun hn => hp ((parent?_eq_some_iff h.nodup_ids).2 hn)

theorem parent?_eq_none_iff {n : Nat} (hn : n < t.size) : t.parent? n = none ↔ n = 0 := by
  obtain ⟨q, hq, rfl⟩ := exists_mem_places (h.mem_ids_iff.2 hn)
  have hparent : t.parent? q.subtree.id = (q.above.map Prod.fst).head? := by
    rw [parent?, ancestors_of_mem_places h.nodup_ids hq]
  obtain rfl | ⟨q', -, -, habove⟩ := eq_or_child_of_mem_placesBelow hq
  · exact ⟨fun _ => h.root, fun _ => hparent⟩
  · rw [habove] at hparent
    have hlt := (h.lt_of_parent? hparent).1
    rw [hparent]
    simp only [List.map_cons, List.head?_cons, reduceCtorEq, false_iff]
    omega

/-- What is above the parent of a number is above the number. -/
theorem mem_ancestors_iff {a n : Nat} :
    a ∈ t.ancestors n ↔ ∃ p, t.parent? n = some p ∧ (a = p ∨ a ∈ t.ancestors p) := by
  rw [ancestors_eq h.nodup_ids n]
  cases t.parent? n <;> simp

theorem ancestors_trans {a b : Nat} (ha : a ∈ t.ancestors b) (n : Nat) (hb : b ∈ t.ancestors n) :
    a ∈ t.ancestors n := by
  induction n using Nat.strongRecOn with
  | ind n ih =>
    rw [h.mem_ancestors_iff] at hb ⊢
    obtain ⟨p, hp, hbp⟩ := hb
    refine ⟨p, hp, .inr ?_⟩
    obtain rfl | hbp := hbp
    · exact ha
    · exact ih p (h.lt_of_parent? hp).1 hbp

theorem climb (n : Nat) : t.Climb (t.parent? n) (t.ancestors n) := by
  induction n using Nat.strongRecOn with
  | ind n ih =>
    rw [ancestors_eq h.nodup_ids n]
    cases hp : t.parent? n with
    | none => exact .done
    | some p => exact .up (ih p (h.lt_of_parent? hp).1)

theorem ancestors_decreasing (n : Nat) : (n :: t.ancestors n).Pairwise (· > ·) := by
  induction n using Nat.strongRecOn with
  | ind n ih =>
    rw [ancestors_eq h.nodup_ids n]
    cases hp : t.parent? n with
    | none => exact List.pairwise_singleton _ n
    | some p =>
      have hlt := (h.lt_of_parent? hp).1
      have hup := ih p hlt
      refine List.pairwise_cons.2 ⟨?_, hup⟩
      intro a ha
      obtain rfl | ha := List.mem_cons.1 ha
      · exact hlt
      · exact Nat.lt_trans (List.rel_of_pairwise_cons hup ha) hlt

theorem ancestors_end {n : Nat} (hn : n < t.size) : (n :: t.ancestors n).getLast? = some 0 := by
  induction n using Nat.strongRecOn with
  | ind n ih =>
    rw [ancestors_eq h.nodup_ids n]
    cases hp : t.parent? n with
    | none => rw [(h.parent?_eq_none_iff hn).1 hp]; rfl
    | some p =>
      obtain ⟨hlt, -⟩ := h.lt_of_parent? hp
      rw [Option.elim_some, List.getLast?_cons_cons]
      exact ih p hlt (by omega)

theorem walk {n : Nat} (hn : n < t.size) : t.Walk [n] (t.descendants n) := by
  obtain ⟨q, hq, rfl⟩ := exists_mem_places (h.mem_ids_iff.2 hn)
  have hwalk := walk_ids h.nodup_ids hq .done
  rw [List.append_nil] at hwalk
  rw [descendants_of_mem_places h.nodup_ids hq]
  exact hwalk

theorem descendants_zero : t.descendants 0 = t.ids := by
  have hself : ⟨[], t⟩ ∈ t.places := mem_placesBelow_self t
  have hroot := descendants_of_mem_places h.nodup_ids hself
  rw [← hroot, h.root]

theorem self_mem_descendants {n : Nat} (hn : n < t.size) : n ∈ t.descendants n := by
  rw [descendants_eq h.nodup_ids (h.mem_ids_iff.2 hn)]
  exact List.mem_cons_self

theorem mem_descendants_iff_of_child {j n : Nat} (hn : n < t.size) :
    j ∈ t.descendants n ↔ j = n ∨ ∃ c, t.parent? c = some n ∧ j ∈ t.descendants c := by
  rw [descendants_eq h.nodup_ids (h.mem_ids_iff.2 hn), List.mem_cons, List.mem_flatMap]
  simp only [parent?_eq_some_iff h.nodup_ids]

/-- The descendants of a node are closed under children. -/
theorem mem_descendants_of_parent? {j p : Nat} (hj : t.parent? j = some p) {n : Nat}
    (hn : n < t.size) (hp : p ∈ t.descendants n) : j ∈ t.descendants n := by
  induction hk : t.size - n using Nat.strongRecOn generalizing n with
  | ind k ih =>
    rw [h.mem_descendants_iff_of_child hn] at hp ⊢
    right
    obtain rfl | ⟨c, hc, hpc⟩ := hp
    · exact ⟨j, hj, h.self_mem_descendants (h.lt_of_parent? hj).2⟩
    · obtain ⟨hnc, hcs⟩ := h.lt_of_parent? hc
      exact ⟨c, hc, ih (t.size - c) (by omega) hcs hpc rfl⟩

theorem mem_descendants_of_mem_ancestors {j n : Nat} (hn : n ∈ t.ancestors j) :
    j ∈ t.descendants n := by
  induction j using Nat.strongRecOn with
  | ind j ih =>
    obtain ⟨p, hp, hnp⟩ := h.mem_ancestors_iff.1 hn
    obtain ⟨hlt, hj⟩ := h.lt_of_parent? hp
    obtain rfl | hnp := hnp
    · exact h.mem_descendants_of_parent? hp (by omega) (h.self_mem_descendants (by omega))
    · have hnlt := List.rel_of_pairwise_cons (h.ancestors_decreasing p) hnp
      exact h.mem_descendants_of_parent? hp (by omega) (ih p hlt hnp)

theorem mem_ancestors_of_mem_descendants {j n : Nat} (hn : n < t.size)
    (hj : j ∈ t.descendants n) : j < t.size ∧ (j = n ∨ n ∈ t.ancestors j) := by
  induction hk : t.size - n using Nat.strongRecOn generalizing n with
  | ind k ih =>
    obtain rfl | ⟨c, hc, hjc⟩ := (h.mem_descendants_iff_of_child hn).1 hj
    · exact ⟨hn, .inl rfl⟩
    · obtain ⟨hnc, hcs⟩ := h.lt_of_parent? hc
      have hup : n ∈ t.ancestors c := h.mem_ancestors_iff.2 ⟨n, hc, .inl rfl⟩
      obtain ⟨hlt, rfl | hcj⟩ := ih (t.size - c) (by omega) hcs hjc rfl
      · exact ⟨hlt, .inr hup⟩
      · exact ⟨hlt, .inr (h.ancestors_trans hup j hcj)⟩

/-- A tree in order has links that agree, ways up that end at the root, and walks that end. -/
theorem linked : t.Linked where
  parent?_eq_none_iff _ := h.parent?_eq_none_iff
  count_childIds := h.count_childIds
  lt_of_parent? _ _ hp := (h.lt_of_parent? hp).1
  childIds_increasing p := (h.childIds_increasing p).of_cons
  climb n _ := h.climb n
  ancestors_decreasing n _ := h.ancestors_decreasing n
  ancestors_end _ := h.ancestors_end
  walk _ := h.walk
  nodup_descendants := nodup_descendants h.nodup_ids
  mem_descendants_iff n hn j := by
    refine ⟨h.mem_ancestors_of_mem_descendants hn, ?_⟩
    rintro ⟨hj, rfl | hnj⟩
    · exact h.self_mem_descendants hn
    · exact h.mem_descendants_of_mem_ancestors hnj
  descendants_eq _ hn := Tree.descendants_eq h.nodup_ids (h.mem_ids_iff.2 hn)
  length_descendants := by rw [h.descendants_zero, length_ids]

omit h in
theorem empty : Tree.empty.Ordered where
  perm := .refl _
  root := rfl
  increasing := everywhere_leaf.2 (List.pairwise_singleton _ _)

/-- The number that is new is larger than all that are there. -/
theorem append {parent : Nat} (hp : parent < t.size) (d : Node) :
    (t.append parent d).Ordered where
  perm := by
    rw [size_append h.perm hp d]
    exact ids_append_perm h.perm hp d
  root := by rw [Tree.append, id_addUnder, h.root]
  increasing := by
    have hlt : ∀ n ∈ t.ids, n < t.size := fun n hn => h.mem_ids_iff.1 hn
    have hinc := h.increasing
    rw [Tree.append]
    generalize t.size = m at hlt
    clear h hp
    induction t with
    | node i e ts ih =>
      rw [ids_node, List.forall_mem_cons] at hlt
      obtain ⟨hself, hbelow⟩ := everywhere_node.1 hinc
      have hnew : ((addUnder parent (leaf m d) (node i e ts)).id ::
          (addUnder parent (leaf m d) (node i e ts)).children.map id).Pairwise (· < ·) := by
        rw [id_addUnder, map_id_children_addUnder, ← List.cons_append]
        refine List.pairwise_append.2 ⟨hself, ?_, ?_⟩
        · split
          · exact List.pairwise_singleton _ _
          · exact .nil
        · intro a ha b hb
          have ham : a < m := by
            obtain rfl | ha := List.mem_cons.1 ha
            · exact hlt.1
            · exact hlt.2 a ((map_id_sublist ts).subset ha)
          split at hb
          · rw [List.mem_singleton.1 hb]
            exact ham
          · cases hb
      rw [addUnder] at hnew ⊢
      refine everywhere_node.2 ⟨hnew, ?_⟩
      intro c hc
      rw [addUnderAll_eq_map, List.mem_append, List.mem_map] at hc
      obtain ⟨u, hu, rfl⟩ | hc := hc
      · have hbound : ∀ n ∈ u.ids, n < m := fun n hn =>
          hlt.2 n (List.mem_flatMap.2 ⟨u, hu, hn⟩)
        exact ih u hu (hbelow u hu) hbound
      · split at hc
        · rw [List.mem_singleton.1 hc]
          exact everywhere_leaf.2 (List.pairwise_singleton _ _)
        · cases hc

end Ordered

theorem Built.ordered {t : Tree} (h : t.Built) : t.Ordered := by
  induction h with
  | empty => exact .empty
  | append d _ hp ih => exact ih.append hp d

/-- Numbers that go up by one in preorder are in order. -/
theorem ordered_of_ids {t : Tree} (h : t.ids = List.range t.size) : t.Ordered where
  perm := .of_eq h
  root := by
    have hhead : t.ids.head? = some t.id := by
      cases t
      rw [ids_node]
      rfl
    rw [h, List.head?_range] at hhead
    split at hhead <;> simp_all
  increasing s hs := by
    have hpairwise : s.ids.Pairwise (· < ·) := by
      refine List.Pairwise.sublist (ids_sublist_of_mem_preorder hs) ?_
      rw [h]
      exact List.pairwise_lt_range
    obtain ⟨i, d, ts⟩ := s
    rw [ids_node] at hpairwise
    exact hpairwise.sublist ((map_id_sublist ts).cons_cons i)

end Tree

/-! ### Counting by kind -/

namespace Command

theorem sum_countP_kind (ss : List Tree) :
    (Kind.all.map fun k => ss.countP fun s => s.kind = k).sum = ss.length := by
  induction ss with
  | nil => rfl
  | cons s ss ih =>
    have hone : (Kind.all.map fun k => if s.kind = k then 1 else 0).sum = 1 := by
      cases s.kind <;> rfl
    simp only [List.countP_cons, decide_eq_true_eq, List.sum_map_add, ih, hone, List.length_cons]

theorem sum_filter_ne_zero (cs : List (String × Nat)) :
    ((cs.filter fun c => c.2 ≠ 0).map Prod.snd).sum = (cs.map Prod.snd).sum := by
  induction cs with
  | nil => rfl
  | cons c cs ih =>
    rw [List.filter_cons]
    split
    · rw [List.map_cons, List.sum_cons, ih, List.map_cons, List.sum_cons]
    · rename_i hc
      have hzero : c.2 = 0 := by simpa using hc
      rw [ih, List.map_cons, List.sum_cons, hzero, Nat.zero_add]

theorem sum_kindCounts (t : Tree) : ((kindCounts t).map Prod.snd).sum = t.size := by
  rw [kindCounts, ((List.mergeSort_perm _ _).map Prod.snd).sum_eq, sum_filter_ne_zero,
    List.map_map, ← Tree.length_preorder, ← sum_countP_kind]
  rfl

theorem mem_kindCounts_iff {t : Tree} {k : Kind} {c : Nat} :
    (k.name, c) ∈ kindCounts t ↔ c ≠ 0 ∧ (t.preorder.countP fun s => s.kind = k) = c := by
  have hname (j : Kind) : j.name = k.name ↔ j = k := by
    refine ⟨fun h => Option.some.inj ?_, fun h => by rw [h]⟩
    rw [← Kind.ofName?_name, h, Kind.ofName?_name]
  rw [kindCounts, List.mem_mergeSort, List.mem_filter, List.mem_map]
  simp only [Prod.mk.injEq, hname, Kind.mem_all, true_and, exists_eq_left, decide_eq_true_eq]
  exact and_comm

/-- The counts are those of the descendants of the root. -/
theorem countP_descendants {t : Tree} (h : t.Ordered) (k : Kind) :
    ((t.descendants 0).countP fun n => (t.get? n).any fun s => s.kind = k) =
      t.preorder.countP fun s => s.kind = k := by
  rw [h.descendants_zero, Tree.ids, List.countP_map]
  refine List.countP_congr fun s hs => ?_
  rw [← Tree.map_subtree_placesBelow [] t] at hs
  obtain ⟨q, hq, rfl⟩ := List.mem_map.1 hs
  rw [Function.comp_apply, Tree.get?_of_mem_places h.nodup_ids hq, Option.any_some]

end Command

/-- In the trees that grow from a root by appending, and in those of documents, the parents and the
lists of children agree, the ways up and the walks down come to their ends, and appending writes
nothing but the two links of the new node. The counts by kind are those of the descendants of the
root, and together they are as many as there are nodes. -/
theorem Tree.linked_of_built {t : Tree} (h : t.Built ∨ ∃ d o, Document.tree d o = .ok t) :
    t.Linked ∧ (∀ parent < t.size, ∀ d, t.Appended parent d (t.append parent d)) ∧
      ((Command.kindCounts t).map Prod.snd).sum = t.size ∧
      ∀ k c, (k.name, c) ∈ Command.kindCounts t ↔ c ≠ 0 ∧
        ((t.descendants 0).countP fun n => (t.get? n).any fun s => s.kind = k) = c := by
  have hordered : t.Ordered := by
    obtain hbuilt | ⟨d, o, hd⟩ := h
    · exact hbuilt.ordered
    · obtain ⟨bs, -, rfl⟩ := Document.tree_eq_ok hd
      exact ordered_of_ids (ids_ofBlocks bs)
  refine ⟨hordered.linked, fun parent hp d => appended_append hordered.perm hp d,
    Command.sum_kindCounts t, fun k c => ?_⟩
  rw [Command.countP_descendants hordered k]
  exact Command.mem_kindCounts_iff

/-- Nodes appended now here, now there. -/
def Tree.scattered : Tree := empty.grow [(0, { kind := .unorderedList, level := 1 }),
  (0, { kind := .paragraph }), (1, { kind := .unorderedItem, level := 1, number := 1 }),
  (2, { kind := .plain, content := "a" }), (1, { kind := .unorderedItem, level := 1, number := 2 }),
  (3, { kind := .plain, content := "b" })]

theorem Tree.linked_of_built_scattered : scattered.Built ∧
    scattered.Walk [0] [0, 1, 3, 6, 5, 2, 4] ∧ scattered.Climb (some 3) [3, 1, 0] ∧
    (scattered.append 3 { kind := .bold }).childIds 3 = [6, 7] ∧
    ((Command.kindCounts scattered).map Prod.snd).sum = 7 ∧
    ("plain", 2) ∈ Command.kindCounts scattered := by
  have hbuilt : scattered.Built := .grow .empty (by decide)
  obtain ⟨hlinked, happended, hsum, hcounts⟩ := linked_of_built (.inl hbuilt)
  refine ⟨hbuilt, hlinked.walk 0 (by decide), hlinked.climb 6 (by decide), ?_, hsum, ?_⟩
  · exact (happended 3 (by decide) _).childIds_eq 3
  · exact (hcounts .plain 2).2 ⟨by decide, by decide⟩

end RichText
