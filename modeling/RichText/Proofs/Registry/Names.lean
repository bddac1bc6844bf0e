import Mathlib.Data.List.Induction
import RichText.Proofs.Registry.Calls

/-!
What names stand for after a call. A table takes the place that its key has, and with it all names
of that place; then it takes its aliases, from whatever tables they stood for. So a key that is
listed stays a name of its own table as long as no call takes it from the table as an alias.
-/
namespace RichText.Registry

/-- Whether two names stand for the table at the same place. -/
def Synonyms (r : Registry) (name name' : String) : Prop :=
  (r.place? name).isSome ∧ r.place? name = r.place? name'

instance (r : Registry) (name name' : String) : Decidable (r.Synonyms name name') :=
  inferInstanceAs (Decidable (_ ∧ _))

/-- The names of the place that a table gets are those that stand for the same as its key. -/
theorem Sound.synonyms_iff {r : Registry} (h : r.Sound) (t : RuleTable) {name : String} {i : Nat}
    (hp : r.place? name = some i) : r.Synonyms name t.key ↔ i = r.placeFor t := by
  rw [h.place?_eq_placeFor_iff t hp, Synonyms, hp, Option.isSome_some]
  simp [eq_comm]

theorem Sound.get_add {r : Registry} (h : r.Sound) (t : RuleTable) (aliases : List String)
    (name : String) : (r.add t aliases).get name =
      if lowerCase name ∈ (t.key :: aliases).map lowerCase ∨ r.Synonyms name t.key then .ok t
      else r.get name := by
  by_cases hmem : lowerCase name ∈ (t.key :: aliases).map lowerCase
  · rw [if_pos (.inl hmem), get, place?_add, if_pos hmem, Option.bind_some, h.getElem?_add,
      if_pos rfl]
  by_cases hs : r.Synonyms name t.key
  · obtain ⟨i, hp⟩ := Option.isSome_iff_exists.1 hs.1
    rw [if_pos (.inr hs), get, place?_add, if_neg hmem, hp, Option.bind_some, h.getElem?_add,
      if_pos ((h.synonyms_iff t hp).1 hs)]
  · rw [if_neg (not_or.2 ⟨hmem, hs⟩), get, get, place?_add, if_neg hmem]
    cases hp : r.place? name with
    | none => rfl
    | some i =>
      rw [Option.bind_some, Option.bind_some, h.getElem?_add,
        if_neg ((h.synonyms_iff t hp).not.1 hs)]

/-- A complete table is registered after any calls, and then its key and its aliases stand for it,
and so do the names that stood for the same table as its key did. All other names stand for what
they stood for before, or for nothing as before. -/
theorem get_register {r : Registry} (hr : r.Reachable) {t : RuleTable} (ht : t.Complete)
    (aliases : List String) : ∃ r', r.register t aliases = .ok r' ∧
      (∀ name, lowerCase name ∈ (t.key :: aliases).map lowerCase → r'.get name = .ok t) ∧
      (∀ name, r.Synonyms name t.key → r'.get name = .ok t) ∧
      ∀ name, lowerCase name ∉ (t.key :: aliases).map lowerCase → ¬ r.Synonyms name t.key →
        r'.get name = r.get name := by
  refine ⟨_, register_of_total ht r aliases, ?_, ?_, ?_⟩
  · intro name hname
    rw [hr.sound.get_add, if_pos (.inl hname)]
  · intro name hname
    rw [hr.sound.get_add, if_pos (.inr hname)]
  · intro name hname hs
    rw [hr.sound.get_add, if_neg (not_or.2 ⟨hname, hs⟩)]

/-- A table whose key was an alias of another, with an alias of its own that is a key. -/
theorem get_register_replacing :
    ∃ r', standard.register (.uniform "Markdown" {}) ["HTML"] = .ok r' ∧
      r'.get "html" = .ok (.uniform "Markdown" {}) ∧ r'.get "md" = .ok (.uniform "Markdown" {}) ∧
      r'.get "text" = .ok PlainText.table ∧ r'.get "pdf" = .error (.unknownFormat "pdf") := by
  have hreachable : standard.Reachable := reachable_of_start (.inr rfl)
  have hcomplete : (RuleTable.uniform "Markdown" {}).Complete := fun _ => rfl
  obtain ⟨r', hr', hnamed, hsynonyms, hother⟩ := get_register hreachable hcomplete ["HTML"]
  rw [standard_eq] at hsynonyms hother
  refine ⟨r', hr', hnamed "html" (by decide), hsynonyms "md" ⟨rfl, rfl⟩, ?_, ?_⟩
  · rw [hother "text" (by decide) (by decide)]
    rfl
  · rw [hother "pdf" (by decide) (by decide)]
    rfl

/-- A name that is neither the key nor an alias of a table can come to stand for it. -/
theorem get_register_synonym :
    standard.Reachable ∧ (RuleTable.uniform "md" {}).Complete ∧
      lowerCase "markdown" ∉ [lowerCase "md"] ∧
      ∃ r', standard.register (.uniform "md" {}) [] = .ok r' ∧
        r'.get "markdown" ≠ standard.get "markdown" := by
  have hcomplete : (RuleTable.uniform "md" {}).Complete := fun _ => rfl
  refine ⟨reachable_of_start (.inr rfl), hcomplete, by decide, _,
    register_of_total hcomplete standard [], fun h => ?_⟩
  have hpad : some (some false) = some (some true) :=
    congrArg (fun x => x.toOption.map fun t => (t.rule? .plain).map Rule.leftPad) h
  simp at hpad

/-- Whether the keys that are listed are the names of different formats, each the key of the table
that it stands for. -/
structure Canonical (r : Registry) : Prop where
  distinct : (r.keys.map lowerCase).Nodup
  own : ∀ k ∈ r.keys, ∃ t, r.get k = .ok t ∧ t.key = k

/-- Whether a call takes, as an alias, a listed key from a table that does not make way for the
table of the call. -/
def Usurps (r : Registry) (c : Registration) : Prop :=
  c.table.Complete ∧ ∃ name ∈ c.aliases, ∃ k ∈ r.keys,
    lowerCase name = lowerCase k ∧ ¬ r.Synonyms k c.table.key

/-- The listed keys are canonical exactly if every table is at the place of its key. -/
theorem Sound.canonical_iff {r : Registry} (h : r.Sound) :
    r.Canonical ↔ ∀ i t, r.tables[i]? = some t → r.place? t.key = some i := by
  constructor
  · intro hc i t hi
    obtain ⟨u, hget, hu⟩ := hc.own t.key (List.mem_map_of_mem (List.mem_of_getElem? hi))
    obtain ⟨j, hp, hj⟩ := h.get_eq_ok_iff.1 hget
    have hsame : (r.keys.map lowerCase)[i]? = (r.keys.map lowerCase)[j]? := by
      simp [keys, hi, hj, hu]
    have hlt : i < (r.keys.map lowerCase).length := by
      simpa [keys] using (List.getElem?_eq_some_iff.1 hi).1
    rw [hp, (List.getElem?_inj hlt hc.distinct).1 hsame]
  · intro hall
    constructor
    · rw [List.nodup_iff_getElem?_ne_getElem?]
      intro i j hij hj hsame
      have hj : j < r.tables.length := by simpa [keys] using hj
      have hi : i < r.tables.length := Nat.lt_trans hij hj
      have hkey : lowerCase r.tables[i].key = lowerCase r.tables[j].key := by
        simpa [keys, hi, hj] using hsame
      have hp := hall i _ (List.getElem?_eq_getElem hi)
      rw [place?_congr hkey, hall j _ (List.getElem?_eq_getElem hj)] at hp
      exact Nat.ne_of_gt hij (Option.some.inj hp)
    · intro k hk
      obtain ⟨t, ht, rfl⟩ := List.mem_map.1 hk
      obtain ⟨i, hi⟩ := List.mem_iff_getElem?.1 ht
      exact ⟨t, h.get_eq_ok_iff.2 ⟨i, hall i t hi, hi⟩, rfl⟩

/-- A call keeps the listed keys canonical exactly if it usurps none of them. -/
theorem Sound.canonical_call_iff {r : Registry} (h : r.Sound) (hr : r.Canonical)
    (c : Registration) : (r.call c).Canonical ↔ ¬ r.Usurps c := by
  by_cases hc : c.table.Complete
  swap
  · simp [call_of_not_complete hc, hr, Usurps, hc]
  have hplace := h.canonical_iff.1 hr
  rw [(h.call c).canonical_iff, call_of_complete hc]
  constructor
  · rintro hall ⟨-, name, hname, k, hk, hlower, hnot⟩
    obtain ⟨t, ht, rfl⟩ := List.mem_map.1 hk
    obtain ⟨i, hi⟩ := List.mem_iff_getElem?.1 ht
    have hp := hplace i t hi
    -- The table stays at its place, and its key is a name of the place of the call's table.
    have hne : i ≠ r.placeFor c.table := (h.synonyms_iff c.table hp).not.1 hnot
    have hstays := hall i t (by rw [h.getElem?_add, if_neg hne, hi])
    rw [place?_add, if_pos] at hstays
    · exact hne (Option.some.inj hstays).symm
    · exact List.mem_map.2 ⟨name, List.mem_cons_of_mem _ hname, hlower⟩
  · intro hnot i t hi
    rw [h.getElem?_add] at hi
    rw [place?_add]
    split at hi
    · next heq =>
      obtain rfl : c.table = t := Option.some.inj hi
      rw [if_pos (by simp), heq]
    · next hne =>
      have hp := hplace i t hi
      have hkey : ¬ r.Synonyms t.key c.table.key := (h.synonyms_iff c.table hp).not.2 hne
      rw [if_neg, hp]
      rw [List.map_cons, List.mem_cons, not_or]
      constructor
      · intro hlower
        exact hkey ⟨by simp [hp], place?_congr hlower r⟩
      · intro hmem
        obtain ⟨name, hname, hlower⟩ := List.mem_map.1 hmem
        exact hnot ⟨hc, name, hname, t.key,
          List.mem_map_of_mem (List.mem_of_getElem? hi), hlower, hkey⟩

theorem canonical_of_start {start : Registry} (h : start = empty ∨ start = standard) :
    start.Canonical := by
  obtain rfl | rfl := h
  · exact ⟨by simp [keys, empty], by simp [keys, empty]⟩
  · rw [(sound_of_start (.inr rfl)).canonical_iff]
    intro i t hi
    rw [standard_eq] at hi ⊢
    obtain _ | _ | _ | i := i
    · cases hi
      rfl
    · cases hi
      rfl
    · cases hi
      rfl
    · simp at hi

/-- All registries along the calls list canonical keys exactly if no call usurps a key. A key that
is listed stands for a table in any case. -/
theorem canonical_run_iff {start : Registry} (hstart : start = empty ∨ start = standard)
    (calls : List Registration) :
    ((∀ before, before <+: calls → (start.run before).Canonical) ↔
      ∀ before c, before ++ [c] <+: calls → ¬ (start.run before).Usurps c) ∧
    ∀ k ∈ (start.run calls).keys, ∃ t, (start.run calls).get k = .ok t := by
  have hsound := (sound_of_start hstart).run
  refine ⟨⟨?_, ?_⟩, ?_⟩
  · intro hall before c hc
    rw [← (hsound before).canonical_call_iff (hall before ((List.prefix_append ..).trans hc)),
      ← run_concat]
    exact hall _ hc
  · intro hnot before
    induction before using List.reverseRecOn with
    | nil => exact fun _ => canonical_of_start hstart
    | append_singleton before c ih =>
      intro hc
      have hcanonical := ih ((List.prefix_append ..).trans hc)
      rw [run_concat, (hsound before).canonical_call_iff hcanonical]
      exact hnot before c hc
  · intro k hk
    obtain ⟨t, ht, rfl⟩ := List.mem_map.1 hk
    exact (hsound calls).supports_iff.1 ((hsound calls).named t ht)

/-- A table that replaces another under its alias, and takes the key of the other as an alias. -/
theorem canonical_run_iff_replacing :
    (standard.run [⟨.uniform "Markdown" {}, ["md"]⟩]).Canonical := by
  refine (canonical_run_iff (.inr rfl) _).1.2 ?_ _ (List.prefix_refl _)
  intro before c hc
  obtain ⟨rfl, rfl⟩ : before = [] ∧ c = ⟨.uniform "Markdown" {}, ["md"]⟩ := by
    have hlength : before = [] := by simpa using hc.length_le
    subst hlength
    simpa using hc
  rw [run, List.foldl_nil, standard_eq]
  rintro ⟨-, name, hname, k, hk, hlower, hnot⟩
  obtain rfl : name = "md" := List.mem_singleton.1 hname
  have hk : k ∈ ["md", "html", "txt"] := hk
  simp only [List.mem_cons, List.not_mem_nil, or_false] at hk
  obtain rfl | rfl | rfl := hk
  · exact hnot ⟨rfl, rfl⟩
  · exact absurd hlower (by decide)
  · exact absurd hlower (by decide)

/-- The standard registry after a call that takes the key of another table as an alias. -/
def usurped : Registry := standard.run [⟨.uniform "x" {}, ["md"]⟩]

/-- A listed key can stand for the table of another key, and then a key can be listed twice. -/
theorem keys_usurped :
    usurped.Reachable ∧ (∀ c ∈ [Registration.mk (.uniform "x" {}) ["md"], ⟨.uniform "md" {}, []⟩],
      c.table.Complete) ∧
    (usurped.keys = ["md", "html", "txt", "x"] ∧ ∃ t, usurped.get "md" = .ok t ∧ t.key = "x") ∧
    (usurped.call ⟨.uniform "md" {}, []⟩).keys = ["md", "html", "txt", "md"] := by
  have heq : usurped =
      ⟨[Markdown.table, Html.table, PlainText.table, .uniform "x" {}],
        [("md", 3), ("x", 3), ("text", 2), ("txt", 2), ("html", 1), ("markdown", 0),
          ("md", 0)]⟩ := by
    rw [usurped, standard_eq]
    rfl
  refine ⟨⟨standard, _, .inr rfl, rfl⟩, ?_, by rw [heq]; exact ⟨rfl, _, rfl, rfl⟩,
    by rw [heq]; rfl⟩
  simp only [List.mem_cons, List.not_mem_nil, or_false, forall_eq_or_imp, forall_eq]
  exact ⟨fun _ => rfl, fun _ => rfl⟩

end RichText.Registry
