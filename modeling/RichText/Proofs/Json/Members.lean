import Mathlib.Data.List.Nodup
import RichText.Json.Decode
import RichText.Proofs.Lists

/-!
The members of a structure. What is read from an object are its members of the known names, and they
are read by looking names up, so neither their order nor other members matter. An array gives the
same by position.
-/
namespace RichText.Json.Value

section lookup
variable {α : Type} {as bs : List (String × α)} {name : String} {a : α}

theorem lookup_eq_some_iff_mem (h : (as.map Prod.fst).Nodup) :
    as.lookup name = some a ↔ (name, a) ∈ as := by
  induction as with
  | nil => simp
  | cons m as ih =>
    rw [List.map_cons, List.nodup_cons] at h
    rw [List.lookup_cons, List.mem_cons, ← ih h.2, Prod.ext_iff]
    by_cases hname : name = m.1
    · subst hname
      have hnone : as.lookup m.1 = none := by
        rw [List.lookup_eq_none_iff]
        intro e he
        have hne : m.1 ≠ e.1 := fun heq => h.1 (heq ▸ List.mem_map_of_mem he)
        simpa using hne
      simp [hnone, eq_comm]
    · have hbeq : (name == m.1) = false := beq_eq_false_iff_ne.2 hname
      simp [hbeq, hname]

theorem lookup_eq_none_iff_not_mem : as.lookup name = none ↔ name ∉ as.map Prod.fst := by
  rw [List.lookup_eq_none_iff, List.mem_map]
  constructor
  · rintro h ⟨e, he, rfl⟩
    simpa using h e he
  · exact fun h e he => bne_iff_ne.2 fun hname => h ⟨e, he, hname.symm⟩

theorem lookup_perm (h : as.Perm bs) (hbs : (bs.map Prod.fst).Nodup) (name : String) :
    as.lookup name = bs.lookup name := by
  have has : (as.map Prod.fst).Nodup := (h.map Prod.fst).nodup_iff.2 hbs
  refine Option.ext fun a => ?_
  rw [lookup_eq_some_iff_mem has, lookup_eq_some_iff_mem hbs, h.mem_iff]

theorem perm_of_lookup (has : (as.map Prod.fst).Nodup) (hbs : (bs.map Prod.fst).Nodup)
    (h : ∀ name, as.lookup name = bs.lookup name) : as.Perm bs := by
  refine (List.perm_ext_iff_of_nodup has.of_map hbs.of_map).2 fun e => ?_
  rw [← lookup_eq_some_iff_mem has, ← lookup_eq_some_iff_mem hbs, h]

end lookup

/-- The members of known names, in their order. -/
def named (names : List String) (ms : List (Option String × Value)) : List (String × Value) :=
  ms.filterMap fun m => m.1.bind fun key => if key ∈ names then some (key, m.2) else none

theorem named_append (names : List String) (ms ns : List (Option String × Value)) :
    named names (ms ++ ns) = named names ms ++ named names ns := List.filterMap_append

theorem named_cons (names : List String) (key : String) (v : Value)
    (ms : List (Option String × Value)) :
    named names ((some key, v) :: ms) =
      if key ∈ names then (key, v) :: named names ms else named names ms := by
  by_cases h : key ∈ names <;> simp [named, h]

theorem mem_named {names : List String} {ms : List (Option String × Value)} {key : String}
    {v : Value} : (key, v) ∈ named names ms ↔ key ∈ names ∧ (some key, v) ∈ ms := by
  rw [named, List.mem_filterMap]
  constructor
  · rintro ⟨⟨_ | name, w⟩, hm, h⟩
    · cases h
    · rw [Option.bind_some] at h
      split_ifs at h with hname
      cases h
      exact ⟨hname, hm⟩
  · rintro ⟨hname, hm⟩
    exact ⟨_, hm, by simp [hname]⟩

theorem mem_keys_named {names : List String} {ms : List (Option String × Value)} {key : String} :
    key ∈ (named names ms).map Prod.fst ↔ key ∈ names ∧ some key ∈ ms.map Prod.fst := by
  simp only [List.mem_map, Prod.exists, mem_named, exists_and_right, exists_eq_right]
  exact exists_and_left

/-- A member with the text of its key. -/
def keyed (m : String × Value) : Option String × Value := (some m.1, m.2)

theorem record_eq (ms : List (String × Value)) : record ms = .object (ms.map keyed) := rfl

theorem named_map_keyed (names : List String) (ms : List (String × Value)) :
    named names (ms.map keyed) = ms.filter (·.1 ∈ names) := by
  induction ms with
  | nil => rfl
  | cons m ms ih =>
    rw [List.map_cons, keyed, named_cons, ih, List.filter_cons]
    simp

theorem exists_map_keyed {ms : List (Option String × Value)} (h : ∀ m ∈ ms, m.1.isSome) :
    ∃ ns : List (String × Value), ms = ns.map keyed := by
  induction ms with
  | nil => exact ⟨[], rfl⟩
  | cons m ms ih =>
    rw [List.forall_mem_cons] at h
    obtain ⟨ns, rfl⟩ := ih h.2
    obtain ⟨key, hkey⟩ := Option.isSome_iff_exists.1 h.1
    exact ⟨(key, m.2) :: ns, by rw [List.map_cons, keyed, ← hkey]⟩

theorem mapM_key_eq_some_iff {ms : List (Option String × Value)} {ns : List (String × Value)} :
    ms.mapM (fun m : Option String × Value => m.1.map (·, m.2)) = some ns ↔ ms = ns.map keyed := by
  have hmember (m : Option String × Value) (n : String × Value) :
      m.1.map (·, m.2) = some n ↔ m = keyed n := by
    obtain ⟨_ | key, v⟩ := m
    · simp [keyed]
    · simp [keyed, Prod.ext_iff]
  rw [mapM_eq_some_iff]
  simp only [hmember]
  rw [← List.forall₂_map_right_iff, List.forall₂_eq_eq_eq]

/-- An object is read as a structure if all its keys have a text and no known name repeats. -/
theorem members?_object_eq_some_iff {names : List String} {ms : List (Option String × Value)}
    {known : List (String × Value)} :
    members? names (.object ms) = some known ↔ (∀ m ∈ ms, m.1.isSome) ∧
      named names ms = known ∧ (known.map Prod.fst).Nodup := by
  simp only [members?, Option.bind_eq_bind, Option.bind_eq_some_iff, mapM_key_eq_some_iff]
  constructor
  · rintro ⟨ns, rfl, h⟩
    split_ifs at h with hnodup
    obtain rfl := Option.some.inj h
    refine ⟨?_, named_map_keyed names ns, hnodup⟩
    rw [List.forall_mem_map]
    exact fun _ _ => rfl
  · rintro ⟨hkeys, rfl, hnodup⟩
    obtain ⟨ns, rfl⟩ := exists_map_keyed hkeys
    rw [named_map_keyed] at hnodup ⊢
    exact ⟨ns, rfl, if_pos hnodup⟩

theorem isSome_members?_object {names : List String} {ms : List (Option String × Value)} :
    (members? names (.object ms)).isSome ↔
      (∀ m ∈ ms, m.1.isSome) ∧ ((named names ms).map Prod.fst).Nodup := by
  simp only [Option.isSome_iff_exists, members?_object_eq_some_iff]
  constructor
  · rintro ⟨_, hkeys, rfl, hnodup⟩
    exact ⟨hkeys, hnodup⟩
  · rintro ⟨hkeys, hnodup⟩
    exact ⟨_, hkeys, rfl, hnodup⟩

section insertion
variable {names : List String} {pre post : List (Option String × Value)} {name : String} {v : Value}

theorem isSome_keys_insert : (∀ m ∈ pre ++ (some name, v) :: post, m.1.isSome) ↔
    ∀ m ∈ pre ++ post, m.1.isSome := by
  simp only [List.forall_mem_append, List.forall_mem_cons, Option.isSome_some, true_and]

/-- A known member may be added if it is not there yet. -/
theorem isSome_members?_insert (h : name ∈ names) :
    (members? names (.object (pre ++ (some name, v) :: post))).isSome ↔
      some name ∉ (pre ++ post).map Prod.fst ∧
        (members? names (.object (pre ++ post))).isSome := by
  have hkeys : ((named names (pre ++ (some name, v) :: post)).map Prod.fst).Nodup ↔
      name ∉ (named names (pre ++ post)).map Prod.fst ∧
        ((named names (pre ++ post)).map Prod.fst).Nodup := by
    rw [named_append, named_cons, if_pos h, named_append, ← List.nodup_cons]
    exact (List.perm_middle.map Prod.fst).nodup_iff
  rw [isSome_members?_object, isSome_members?_object, isSome_keys_insert, hkeys, mem_keys_named,
    and_iff_right h]
  exact and_left_comm

/-- A member of another name may always be added, and is passed over. -/
theorem members?_insert_of_not_mem (h : name ∉ names) :
    members? names (.object (pre ++ (some name, v) :: post)) =
      members? names (.object (pre ++ post)) := by
  refine Option.ext fun known => ?_
  rw [members?_object_eq_some_iff, members?_object_eq_some_iff, isSome_keys_insert, named_append,
    named_cons, if_neg h, named_append]

end insertion

theorem members?_array_eq_some_iff {names : List String} {vs : List Value}
    {known : List (String × Value)} :
    members? names (.array vs) = some known ↔ vs.length ≤ names.length ∧ names.zip vs = known := by
  rw [members?]
  split_ifs with h <;> simp [h]

theorem keys_zip_sublist (names : List String) (vs : List Value) :
    ((names.zip vs).map Prod.fst).Sublist names := by
  induction names generalizing vs with
  | nil => exact .slnil
  | cons name names ih =>
    cases vs with
    | nil => exact List.nil_sublist _
    | cons v vs => exact (ih vs).cons_cons name

theorem lookup_zip_eq_some_iff {names : List String} {vs : List Value} {name : String} {v : Value}
    (h : names.Nodup) :
    (names.zip vs).lookup name = some v ↔ ∃ i : Nat, names[i]? = some name ∧ vs[i]? = some v := by
  rw [lookup_eq_some_iff_mem (h.sublist (keys_zip_sublist names vs)), List.mem_iff_getElem?]
  simp only [List.getElem?_zip_eq_some]

theorem lookup_of_members?_object {names : List String} {ms : List (Option String × Value)}
    {known : List (String × Value)} (h : members? names (.object ms) = some known) {name : String}
    (hname : name ∈ names) {v : Value} : known.lookup name = some v ↔ (some name, v) ∈ ms := by
  obtain ⟨-, rfl, hnodup⟩ := members?_object_eq_some_iff.1 h
  rw [lookup_eq_some_iff_mem hnodup, mem_named, and_iff_right hname]

end RichText.Json.Value
