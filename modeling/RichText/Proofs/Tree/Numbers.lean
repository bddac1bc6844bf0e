import Mathlib.Data.List.Perm.Basic
import Mathlib.Data.List.Nodup
import RichText.Proofs.Tree.Placing

/-!
The numbers of the nodes. A tree that grew from its root by appending has the numbers below its
size, each at one node. So a number names one place there, and what stands above a node can be
asked for by number.
-/
namespace RichText.Tree

/-- The trees that grow from a root by appending under nodes that are there. -/
inductive Built : Tree → Prop
  | empty : Built empty
  | append {t : Tree} {parent : Nat} (d : Node) (h : Built t) (hp : parent < t.size) :
    Built (t.append parent d)

theorem ids_node (i : Nat) (d : Node) (ts : List Tree) :
    (node i d ts).ids = i :: ts.flatMap ids := by
  have hall (us : List Tree) : (preorderAll us).map id = us.flatMap ids := by
    induction us with
    | nil => rfl
    | cons u us ih => rw [preorderAll, List.map_append, ih, List.flatMap_cons, ids]
  rw [ids, preorder, List.map_cons, hall, id_node]

theorem length_ids (t : Tree) : t.ids.length = t.size := by
  rw [ids, List.length_map, length_preorder]

mutual
theorem count_ids_addUnder (parent n : Nat) (data : Node) (k : Nat) : ∀ t : Tree,
    (addUnder parent (leaf n data) t).ids.count k =
      t.ids.count k + if n = k then t.ids.count parent else 0
  | node i d ts => by
    have hnew : ((if i = parent then [leaf n data] else []).flatMap ids).count k =
        if n = k then (if i = parent then 1 else 0) else 0 := by
      by_cases hi : i = parent <;> by_cases hn : n = k <;> simp [hi, hn, ids_node]
    simp only [addUnder, ids_node, List.flatMap_append, List.count_cons, List.count_append,
      count_ids_addUnderAll parent n data k ts, hnew, beq_iff_eq]
    split <;> omega
theorem count_ids_addUnderAll (parent n : Nat) (data : Node) (k : Nat) : ∀ ts : List Tree,
    ((addUnderAll parent (leaf n data) ts).flatMap ids).count k =
      (ts.flatMap ids).count k + if n = k then (ts.flatMap ids).count parent else 0
  | [] => by simp [addUnderAll]
  | t :: ts => by
    simp only [addUnderAll, List.flatMap_cons, List.count_append,
      count_ids_addUnder parent n data k t, count_ids_addUnderAll parent n data k ts]
    split <;> omega
end

theorem ids_append_perm {t : Tree} (ht : t.ids.Perm (List.range t.size)) {parent : Nat}
    (hp : parent < t.size) (d : Node) :
    (t.append parent d).ids.Perm (List.range (t.size + 1)) := by
  have hone : t.ids.count parent = 1 := by
    rw [ht.count_eq]
    exact List.count_eq_one_of_mem List.nodup_range (List.mem_range.2 hp)
  rw [List.perm_iff_count]
  intro k
  rw [Tree.append, count_ids_addUnder, hone, ht.count_eq, List.range_succ, List.count_append,
    List.count_singleton]
  simp

theorem size_append {t : Tree} (ht : t.ids.Perm (List.range t.size)) {parent : Nat}
    (hp : parent < t.size) (d : Node) : (t.append parent d).size = t.size + 1 := by
  rw [← length_ids, (ids_append_perm ht hp d).length_eq, List.length_range]

namespace Built

/-- The numbers of a built tree are those below its size, each once. -/
theorem ids_perm {t : Tree} (h : t.Built) : t.ids.Perm (List.range t.size) := by
  induction h with
  | empty => rfl
  | append d _ hp ih =>
    rw [size_append ih hp d]
    exact ids_append_perm ih hp d

theorem nodup_ids {t : Tree} (h : t.Built) : t.ids.Nodup :=
  h.ids_perm.nodup_iff.2 List.nodup_range

end Built

/-- Appends nodes given with their parents one after the other. -/
def grow (t : Tree) (entries : List (Nat × Node)) : Tree :=
  entries.foldl (fun t e => t.append e.1 e.2) t

theorem Built.grow {t : Tree} (h : t.Built) {entries : List (Nat × Node)}
    (he : ∀ k, (hk : k < entries.length) → entries[k].1 < t.size + k) : (t.grow entries).Built := by
  induction entries generalizing t with
  | nil => exact h
  | cons e entries ih =>
    have hp : e.1 < t.size := he 0 (Nat.succ_pos _)
    refine ih (h.append e.2 hp) fun k hk => ?_
    rw [size_append h.ids_perm hp]
    have := he (k + 1) (Nat.succ_lt_succ hk)
    simp only [List.getElem_cons_succ] at this
    omega

mutual
/-- The places below the nodes `above`, each before those below it. -/
def placesBelow (above : List (Nat × Node)) : Tree → List Place
  | node i d ts => ⟨above, node i d ts⟩ :: placesAmong ((i, d) :: above) ts
def placesAmong (above : List (Nat × Node)) : List Tree → List Place
  | [] => []
  | t :: ts => placesBelow above t ++ placesAmong above ts
end

/-- All places of a tree, each before those below it. -/
def places (t : Tree) : List Place := t.placesBelow []

section
variable {above : List (Nat × Node)}

mutual
theorem locateBelow?_eq_find? (n : Nat) (above : List (Nat × Node)) : ∀ t : Tree,
    t.locateBelow? n above = (t.placesBelow above).find? fun p => p.subtree.id = n
  | node i d ts => by
    rw [locateBelow?, placesBelow, List.find?_cons, locateAmong?_eq_find? n _ ts, id_node]
    by_cases hi : i = n <;> simp [hi]
theorem locateAmong?_eq_find? (n : Nat) (above : List (Nat × Node)) : ∀ ts : List Tree,
    locateAmong? n above ts = (placesAmong above ts).find? fun p => p.subtree.id = n
  | [] => rfl
  | t :: ts => by
    rw [locateAmong?, placesAmong, List.find?_append, locateBelow?_eq_find? n above t,
      locateAmong?_eq_find? n above ts]
end

mutual
theorem map_subtree_placesBelow (above : List (Nat × Node)) : ∀ t : Tree,
    (t.placesBelow above).map Place.subtree = t.preorder
  | node i d ts => by
    rw [placesBelow, preorder, List.map_cons, map_subtree_placesAmong _ ts]
theorem map_subtree_placesAmong (above : List (Nat × Node)) : ∀ ts : List Tree,
    (placesAmong above ts).map Place.subtree = preorderAll ts
  | [] => rfl
  | t :: ts => by
    rw [placesAmong, preorderAll, List.map_append, map_subtree_placesBelow above t,
      map_subtree_placesAmong above ts]
end

theorem mem_placesAmong {p : Place} {ts : List Tree} :
    p ∈ placesAmong above ts ↔ ∃ t ∈ ts, p ∈ t.placesBelow above := by
  induction ts with
  | nil => simp [placesAmong]
  | cons t ts ih => simp [placesAmong, ih]

theorem mem_placesBelow_self (t : Tree) : ⟨above, t⟩ ∈ t.placesBelow above := by
  cases t
  rw [placesBelow]
  exact List.mem_cons_self

/-- The children of a node are at places below that of the node. -/
theorem mem_placesBelow_child {t c : Tree} {p : Place} (hp : p ∈ t.placesBelow above)
    (hc : c ∈ p.subtree.children) :
    ⟨(p.subtree.id, p.subtree.data) :: p.above, c⟩ ∈ t.placesBelow above := by
  induction t generalizing above with
  | node i d ts ih =>
    rw [placesBelow, List.mem_cons, mem_placesAmong] at hp ⊢
    obtain rfl | ⟨u, hu, hpu⟩ := hp
    · exact .inr ⟨c, hc, mem_placesBelow_self c⟩
    · exact .inr ⟨u, hu, ih u hu hpu⟩

/-- Every place is the topmost one or that of a child of a node at a place. -/
theorem eq_or_child_of_mem_placesBelow {t : Tree} {p : Place} (hp : p ∈ t.placesBelow above) :
    p = ⟨above, t⟩ ∨ ∃ q ∈ t.placesBelow above, p.subtree ∈ q.subtree.children ∧
      p.above = (q.subtree.id, q.subtree.data) :: q.above := by
  induction t generalizing above with
  | node i d ts ih =>
    rw [placesBelow, List.mem_cons, mem_placesAmong] at hp
    obtain rfl | ⟨u, hu, hpu⟩ := hp
    · exact .inl rfl
    · refine .inr ?_
      obtain rfl | ⟨q, hq, hpq, habove⟩ := ih u hu hpu
      · exact ⟨_, mem_placesBelow_self _, hu, rfl⟩
      · refine ⟨q, ?_, hpq, habove⟩
        rw [placesBelow, List.mem_cons, mem_placesAmong]
        exact .inr ⟨u, hu, hq⟩

end

theorem mem_preorder_of_mem_places {t : Tree} {p : Place} (hp : p ∈ t.places) :
    p.subtree ∈ t.preorder := by
  rw [← map_subtree_placesBelow [] t]
  exact List.mem_map_of_mem hp

theorem exists_mem_places_of_mem_preorder {s t : Tree} (hs : s ∈ t.preorder) :
    ∃ p ∈ t.places, p.subtree = s := by
  rw [← map_subtree_placesBelow [] t] at hs
  exact List.mem_map.1 hs

/-- What stands above a place is at a place too, and has something below it. -/
theorem exists_place_of_mem_above {t : Tree} {p : Place} (hp : p ∈ t.places) {a : Nat × Node}
    (ha : a ∈ p.above) :
    ∃ q ∈ t.places, (q.subtree.id, q.subtree.data) = a ∧ q.subtree.children ≠ [] := by
  obtain ⟨above, s⟩ := p
  induction above generalizing s with
  | nil => simp at ha
  | cons b above ih =>
    obtain heq | ⟨q, hq, hqs, habove⟩ := eq_or_child_of_mem_placesBelow hp
    · simp at heq
    · obtain ⟨rfl, rfl⟩ := List.cons.inj habove
      obtain rfl | ha := List.mem_cons.1 ha
      · exact ⟨q, hq, rfl, List.ne_nil_of_mem hqs⟩
      · exact ih q.subtree hq ha

/-- Every number names a place. -/
theorem exists_mem_places {t : Tree} {n : Nat} (hn : n ∈ t.ids) :
    ∃ p ∈ t.places, p.subtree.id = n := by
  rw [ids, ← map_subtree_placesBelow [] t, List.map_map, List.mem_map] at hn
  exact hn

theorem mem_places_of_locate? {t : Tree} {n : Nat} {p : Place} (h : t.locate? n = some p) :
    p ∈ t.places ∧ p.subtree.id = n := by
  rw [locate?, locateBelow?_eq_find?] at h
  exact ⟨List.mem_of_find?_eq_some h, by simpa using List.find?_some h⟩

/-- Where no number is given twice, a number names one place. -/
theorem locate?_eq_some_iff {t : Tree} (ht : t.ids.Nodup) {n : Nat} {p : Place} :
    t.locate? n = some p ↔ p ∈ t.places ∧ p.subtree.id = n := by
  refine ⟨mem_places_of_locate?, fun ⟨hp, hn⟩ => ?_⟩
  have hids : (t.places.map fun q => q.subtree.id) = t.ids := by
    rw [ids, ← map_subtree_placesBelow [] t, List.map_map]
    rfl
  rw [← hids] at ht
  obtain ⟨q, hq⟩ : ∃ q, t.locate? n = some q := by
    rw [locate?, locateBelow?_eq_find?, ← Option.isSome_iff_exists, List.find?_isSome]
    exact ⟨p, hp, by simpa using hn⟩
  obtain ⟨hqmem, hqn⟩ := mem_places_of_locate? hq
  rw [hq, List.inj_on_of_nodup_map ht hqmem hp (hqn.trans hn.symm)]

/-- The numbers below the size name places. -/
theorem Built.exists_locate? {t : Tree} (h : t.Built) {n : Nat} (hn : n < t.size) :
    ∃ p, t.locate? n = some p := by
  have hmem : n ∈ t.ids := h.ids_perm.mem_iff.2 (List.mem_range.2 hn)
  obtain ⟨p, hp, hpn⟩ := exists_mem_places hmem
  exact ⟨p, (locate?_eq_some_iff h.nodup_ids).2 ⟨hp, hpn⟩⟩

section
variable {t : Tree} (ht : t.ids.Nodup) {p : Place} (hp : p ∈ t.places)
include ht hp

theorem get?_of_mem_places : t.get? p.subtree.id = some p.subtree := by
  rw [get?, (locate?_eq_some_iff ht).2 ⟨hp, rfl⟩, Option.map_some]

theorem ancestors_of_mem_places : t.ancestors p.subtree.id = p.above.map Prod.fst := by
  rw [ancestors, (locate?_eq_some_iff ht).2 ⟨hp, rfl⟩]

/-- What stands above a place is found at its number. -/
theorem exists_get?_of_mem_above {a : Nat × Node} (ha : a ∈ p.above) :
    ∃ s, t.get? a.1 = some s ∧ s.data = a.2 := by
  obtain ⟨q, hq, rfl, -⟩ := exists_place_of_mem_above hp ha
  exact ⟨q.subtree, get?_of_mem_places ht hq, rfl⟩

end

end RichText.Tree
