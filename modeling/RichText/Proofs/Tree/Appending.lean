import RichText.Proofs.Tree.Numbers

/-!
What appending writes. A new node is found under its parent, behind the children that were there,
and nothing changes for the numbers that were given before.
-/
namespace RichText.Tree

/-- The numbers of the children of the node of that number, in their order. -/
def childIds (t : Tree) (n : Nat) : List Nat :=
  match t.get? n with
  | some s => s.children.map id
  | none => []

/-- What appending leaves: the parent of the new node, and the new node behind the other children
of its parent. All else is as it was. -/
structure Appended (t : Tree) (parent : Nat) (d : Node) (u : Tree) : Prop where
  size_eq : u.size = t.size + 1
  data_eq : ∀ n, (u.get? n).map data = if n = t.size then some d else (t.get? n).map data
  parent?_eq : ∀ n, u.parent? n = if n = t.size then some parent else t.parent? n
  childIds_eq : ∀ n, u.childIds n = if n = parent then t.childIds n ++ [t.size] else t.childIds n

section
variable {parent m n : Nat} {d : Node}

@[simp] theorem id_addUnder (new t : Tree) : (addUnder parent new t).id = t.id := by
  cases t
  rw [addUnder]
  rfl

@[simp] theorem data_addUnder (new t : Tree) : (addUnder parent new t).data = t.data := by
  cases t
  rw [addUnder]
  rfl

theorem addUnderAll_eq_map (new : Tree) (ts : List Tree) :
    addUnderAll parent new ts = ts.map (addUnder parent new) := by
  induction ts with
  | nil => rfl
  | cons t ts ih => rw [addUnderAll, ih, List.map_cons]

theorem map_id_children_addUnder (new t : Tree) :
    (addUnder parent new t).children.map id =
      t.children.map id ++ if t.id = parent then [new.id] else [] := by
  cases t with
  | node i e ts =>
    have hsame : (id ∘ addUnder parent new) = id := funext fun t => id_addUnder new t
    rw [addUnder, addUnderAll_eq_map, children_node, children_node, id_node, List.map_append,
      List.map_map, hsame]
    split <;> rfl

mutual
/-- Nothing is added where the parent is not there. -/
theorem addUnder_of_not_mem (new : Tree) : ∀ t : Tree, parent ∉ t.ids → addUnder parent new t = t
  | node i e ts, h => by
    rw [ids_node, List.mem_cons, List.mem_flatMap, not_or] at h
    rw [addUnder, addUnderAll_of_not_mem new ts fun t ht hp => h.2 ⟨t, ht, hp⟩,
      if_neg (Ne.symm h.1), List.append_nil]
theorem addUnderAll_of_not_mem (new : Tree) : ∀ ts : List Tree, (∀ t ∈ ts, parent ∉ t.ids) →
    addUnderAll parent new ts = ts
  | [], _ => rfl
  | t :: ts, h => by
    rw [List.forall_mem_cons] at h
    rw [addUnderAll, addUnder_of_not_mem new t h.1, addUnderAll_of_not_mem new ts h.2]
end

theorem locateAmong?_append (above : List (Nat × Node)) (ts us : List Tree) :
    locateAmong? n above (ts ++ us) = (locateAmong? n above ts).or (locateAmong? n above us) := by
  induction ts with
  | nil => rfl
  | cons t ts ih => rw [List.cons_append, locateAmong?, locateAmong?, ih, Option.or_assoc]

theorem locateAmong?_added (above : List (Nat × Node)) (i : Nat) :
    locateAmong? n above (if i = parent then [leaf m d] else []) =
      if n = m ∧ i = parent then some ⟨above, leaf m d⟩ else none := by
  by_cases hi : i = parent
  · by_cases hn : n = m
    · rw [if_pos hi, if_pos ⟨hn, hi⟩, locateAmong?, locateBelow?, if_pos hn.symm, Option.some_or]
    · rw [if_pos hi, if_neg (fun h => hn h.1), locateAmong?, locateBelow?, if_neg (Ne.symm hn)]
      rfl
  · rw [if_neg hi, if_neg (fun h => hi h.2)]
    rfl

theorem locateAmong?_eq_none {above : List (Nat × Node)} {ts : List Tree}
    (h : ∀ t ∈ ts, n ∉ t.ids) : locateAmong? n above ts = none := by
  rw [locateAmong?_eq_find?, List.find?_eq_none]
  intro p hp hn
  obtain ⟨t, ht, hpt⟩ := mem_placesAmong.1 hp
  apply h t ht
  rw [ids, ← map_subtree_placesBelow above t, List.map_map]
  exact List.mem_map.2 ⟨p, hpt, by simpa using hn⟩

mutual
/-- A number that was there stays where it was. -/
theorem locateBelow?_addUnder_of_ne (hn : n ≠ m) (above : List (Nat × Node)) : ∀ t : Tree,
    (addUnder parent (leaf m d) t).locateBelow? n above =
      (t.locateBelow? n above).map fun p => ⟨p.above, addUnder parent (leaf m d) p.subtree⟩
  | node i e ts => by
    have hnew : ¬ (n = m ∧ i = parent) := fun h => hn h.1
    rw [addUnder, locateBelow?, locateBelow?, locateAmong?_append, locateAmong?_added,
      if_neg hnew, Option.or_none, locateAmong?_addUnderAll_of_ne hn _ ts]
    split
    · rw [Option.map_some, addUnder]
    · rfl
theorem locateAmong?_addUnderAll_of_ne (hn : n ≠ m) (above : List (Nat × Node)) :
    ∀ ts : List Tree, locateAmong? n above (addUnderAll parent (leaf m d) ts) =
      (locateAmong? n above ts).map fun p => ⟨p.above, addUnder parent (leaf m d) p.subtree⟩
  | [] => rfl
  | t :: ts => by
    rw [addUnderAll, locateAmong?, locateAmong?, locateBelow?_addUnder_of_ne hn above t,
      locateAmong?_addUnderAll_of_ne hn above ts]
    cases t.locateBelow? n above <;> rfl
end

mutual
/-- The new number stands under the parent. -/
theorem locateBelow?_addUnder_self (above : List (Nat × Node)) : ∀ t : Tree, t.ids.Nodup →
    m ∉ t.ids → (addUnder parent (leaf m d) t).locateBelow? m above =
      (t.locateBelow? parent above).map fun p => ⟨(parent, p.subtree.data) :: p.above, leaf m d⟩
  | node i e ts, ht, hm => by
    rw [ids_node, List.nodup_cons, List.mem_flatMap, List.nodup_flatMap] at ht
    rw [ids_node, List.mem_cons, not_or, List.mem_flatMap] at hm
    have hts : ∀ t ∈ ts, m ∉ t.ids := fun t ht hmt => hm.2 ⟨t, ht, hmt⟩
    rw [addUnder, locateBelow?, locateBelow?, if_neg (Ne.symm hm.1), locateAmong?_append,
      locateAmong?_added]
    by_cases hi : i = parent
    · have hsame : addUnderAll parent (leaf m d) ts = ts :=
        addUnderAll_of_not_mem _ ts fun t htts hp => ht.1 ⟨t, htts, hi ▸ hp⟩
      rw [hsame, locateAmong?_eq_none hts, Option.none_or, if_pos ⟨rfl, hi⟩, if_pos hi,
        Option.map_some, hi, data_node]
    · rw [if_neg fun h => hi h.2, if_neg hi, Option.or_none,
        locateAmong?_addUnderAll_self _ ts ht.2.1 hts]
theorem locateAmong?_addUnderAll_self (above : List (Nat × Node)) : ∀ ts : List Tree,
    (∀ t ∈ ts, t.ids.Nodup) → (∀ t ∈ ts, m ∉ t.ids) →
      locateAmong? m above (addUnderAll parent (leaf m d) ts) =
        (locateAmong? parent above ts).map
          fun p => ⟨(parent, p.subtree.data) :: p.above, leaf m d⟩
  | [], _, _ => rfl
  | t :: ts, ht, hm => by
    rw [List.forall_mem_cons] at ht hm
    rw [addUnderAll, locateAmong?, locateAmong?, locateBelow?_addUnder_self above t ht.1 hm.1,
      locateAmong?_addUnderAll_self above ts ht.2 hm.2]
    cases t.locateBelow? parent above <;> rfl
end

end

section
variable {t : Tree}

theorem ids_places (t : Tree) : (t.places.map fun p => p.subtree.id) = t.ids := by
  rw [ids, ← map_subtree_placesBelow [] t, List.map_map]
  rfl

theorem locate?_eq_none {n : Nat} (hn : n ∉ t.ids) : t.locate? n = none := by
  rw [Option.eq_none_iff_forall_ne_some]
  intro p hp
  obtain ⟨hmem, rfl⟩ := mem_places_of_locate? hp
  rw [← ids_places] at hn
  exact hn (List.mem_map.2 ⟨p, hmem, rfl⟩)

/-- What appending does to the links. -/
theorem appended_append (hids : t.ids.Perm (List.range t.size)) {parent : Nat}
    (hp : parent < t.size) (d : Node) : t.Appended parent d (t.append parent d) := by
  have hnodup : t.ids.Nodup := hids.nodup_iff.2 List.nodup_range
  have hnew : t.size ∉ t.ids := by simp [hids.mem_iff]
  obtain ⟨q, hq, rfl⟩ := exists_mem_places (hids.mem_iff.2 (List.mem_range.2 hp))
  have hself : (t.append q.subtree.id d).locate? t.size =
      some ⟨(q.subtree.id, q.subtree.data) :: q.above, leaf t.size d⟩ := by
    rw [locate?, append, locateBelow?_addUnder_self [] t hnodup hnew, ← locate?,
      (locate?_eq_some_iff hnodup).2 ⟨hq, rfl⟩, Option.map_some]
  have hother {n : Nat} (hn : n ≠ t.size) : (t.append q.subtree.id d).locate? n =
      (t.locate? n).map fun p => ⟨p.above, addUnder q.subtree.id (leaf t.size d) p.subtree⟩ :=
    locateBelow?_addUnder_of_ne hn [] t
  have hnone := locate?_eq_none hnew
  constructor
  case size_eq => exact size_append hids hp d
  case data_eq =>
    intro n
    by_cases hn : n = t.size
    · rw [if_pos hn, hn, get?, hself]
      rfl
    · rw [if_neg hn, get?, get?, hother hn]
      cases t.locate? n <;> simp
  case parent?_eq =>
    intro n
    by_cases hn : n = t.size
    · rw [if_pos hn, hn, parent?, ancestors, hself]
      rfl
    · rw [if_neg hn, parent?, parent?, ancestors, ancestors, hother hn]
      cases t.locate? n <;> rfl
  case childIds_eq =>
    intro n
    by_cases hn : n = t.size
    · have hne : n ≠ q.subtree.id := by omega
      rw [if_neg hne, hn, childIds, childIds, get?, get?, hself, hnone]
      rfl
    · rw [childIds, childIds, get?, get?, hother hn]
      cases hlocate : t.locate? n with
      | none =>
        -- The parent is there, so it is not this number.
        have hne : n ≠ q.subtree.id := by
          intro he
          rw [he, (locate?_eq_some_iff hnodup).2 ⟨hq, rfl⟩] at hlocate
          cases hlocate
        rw [if_neg hne]
        rfl
      | some p =>
        obtain ⟨-, rfl⟩ := mem_places_of_locate? hlocate
        simp only [Option.map_some, map_id_children_addUnder, id_node]
        split <;> simp

end

end RichText.Tree
