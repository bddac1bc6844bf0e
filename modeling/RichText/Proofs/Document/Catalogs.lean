import RichText.Document.Decode
import RichText.Proofs.Json.Decoding

/-!
Catalogs that are built from lists. The last entry of a name stays, and a list of names that are all
different is kept as it is.
-/
namespace RichText.Catalog

open Json Json.Value

variable {α : Type}

theorem ofList_concat (entries : List (String × α)) (e : String × α) :
    ofList (entries ++ [e]) = (ofList entries).insert e.1 e.2 := by
  simp [ofList]

/-- The last entry of a name is the one that stays. -/
theorem get?_ofList (entries : List (String × α)) (name : String) :
    (ofList entries).get? name = entries.reverse.lookup name := by
  induction entries using List.reverseRecOn with
  | nil => rfl
  | append_singleton entries e ih =>
    rw [ofList_concat, get?_insert, ih, List.reverse_append, List.reverse_singleton,
      List.singleton_append, List.lookup_cons]
    by_cases h : name = e.1
    · simp [h]
    · simp [h, beq_eq_false_iff_ne.2 h]

theorem get?_ofList_eq_some_iff {entries : List (String × α)} {name : String} {a : α} :
    (ofList entries).get? name = some a ↔
      ∃ before after, entries = before ++ (name, a) :: after ∧ name ∉ after.map Prod.fst := by
  rw [get?_ofList, List.lookup_eq_some_iff]
  constructor
  · rintro ⟨after, before, h, hafter⟩
    refine ⟨before.reverse, after.reverse, ?_, ?_⟩
    · rw [← List.reverse_reverse entries, h]
      simp
    · intro hmem
      obtain ⟨e, he, rfl⟩ := List.mem_map.1 hmem
      simpa using hafter e (List.mem_reverse.1 he)
  · rintro ⟨before, after, rfl, hafter⟩
    refine ⟨after.reverse, before.reverse, by simp, fun e he => bne_iff_ne.2 fun hname => ?_⟩
    exact hafter (List.mem_map.2 ⟨e, List.mem_reverse.1 he, hname.symm⟩)

/-- Names that are all different are entered in their order. -/
theorem entries_ofList {entries : List (String × α)} (h : (entries.map Prod.fst).Nodup) :
    (ofList entries).entries = entries := by
  induction entries using List.reverseRecOn with
  | nil => rfl
  | append_singleton entries e ih =>
    rw [List.map_append, List.nodup_append] at h
    have hentries := ih h.1
    have hnew : e.1 ∉ (ofList entries).entries.map Prod.fst := by
      rw [hentries]
      intro hmem
      exact h.2.2 e.1 hmem e.1 (by simp) rfl
    rw [ofList_concat, entries_insert_of_not_mem e.2 hnew, hentries]

theorem ofList_entries (c : Catalog α) : ofList c.entries = c :=
  Catalog.ext (entries_ofList c.nodup)

theorem get?_ofList_perm {entries : List (String × α)} {c : Catalog α}
    (h : entries.Perm c.entries) (name : String) : (ofList entries).get? name = c.get? name := by
  have hnodup : (entries.map Prod.fst).Nodup := (h.map Prod.fst).nodup_iff.2 c.nodup
  rw [get?, entries_ofList hnodup, lookup_perm h c.nodup, get?]

/-- A catalog is decoded exactly if all keys have a text and all entries are decoded, also those of
a name that comes again. -/
theorem decode_object_eq_some_iff {entry : Decoder α} {room : Nat}
    {ms : List (Option String × Value)} {c : Catalog α} :
    decode entry (room + 1) (.object ms) = some c ↔ ∃ entries : List (String × α),
      List.Forall₂ (fun m e => m.1 = some e.1 ∧ entry room m.2 = some e.2) ms entries ∧
        ofList entries = c := by
  have hentry (m : Option String × Value) (e : String × α) :
      (do return (← m.1, ← entry room m.2) : Option (String × α)) = some e ↔
        m.1 = some e.1 ∧ entry room m.2 = some e.2 := by
    simp only [Option.bind_eq_bind, Option.pure_def, Option.bind_eq_some_iff, Option.some.injEq]
    constructor
    · rintro ⟨name, hname, a, ha, rfl⟩
      exact ⟨hname, ha⟩
    · rintro ⟨hname, ha⟩
      exact ⟨_, hname, _, ha, rfl⟩
  rw [decode, Option.map_eq_some_iff]
  simp only [mapM_eq_some_iff, hentry]

theorem decode_record {f : α → Value} {entry : Decoder α} {room : Nat}
    (h : ∀ a, entry room (f a) = some a) (entries : List (String × α)) :
    decode entry (room + 1) (record (entries.map fun e => (e.1, f e.2))) =
      some (ofList entries) := by
  refine decode_object_eq_some_iff.2 ⟨entries, ?_, rfl⟩
  rw [List.map_map, List.forall₂_map_left_iff, List.forall₂_same]
  exact fun e _ => ⟨rfl, h e.2⟩

end RichText.Catalog
