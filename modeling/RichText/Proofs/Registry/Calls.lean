import RichText.Proofs.Render.Failure
import RichText.Registry

/-!
Calls that register tables. A call changes a registry in place, first a table and then the names one
by one, and it changes nothing if its table lacks a rule. After any calls every name stands for a
table that is there, and every table has all its rules, so no rendering lacks one.
-/
namespace RichText

namespace RuleTable

/-- Whether there is a rule for every kind. -/
def Complete (t : RuleTable) : Prop := ∀ k, (t.rule? k).isSome

/-- A complete table never lacks a rule, whatever tree it renders. -/
theorem render_ne_missingRule {t : RuleTable} (ht : t.Complete) (files : Manifest) (tree : Tree)
    (key : String) (kind : Kind) : t.render files tree ≠ .error (.missingRule key kind) := by
  intro h
  rw [← failure?_eq_some_iff, render, failure?_map, failure?_renderTree,
    List.findSome?_eq_some_iff] at h
  obtain ⟨-, d, -, -, hd, -⟩ := h
  cases defect?_eq_some_iff.1 hd with
  | rule hrule => simpa [hrule] using ht d.kind

end RuleTable

/-- A table to be registered, and the aliases it is to have. -/
structure Registration where
  table : RuleTable
  aliases : List String

namespace Registration

/-- The changes that a call makes in place, one after the other, until an error ends it. -/
def inPlace (c : Registration) : ExceptT Error (StateM Registry) Unit := do
  c.table.validate
  let r ← get
  let place ← match r.place? c.table.key with
    | some i => do
      set { r with tables := r.tables.set i c.table }
      pure i
    | none => do
      set { r with tables := r.tables ++ [c.table] }
      pure r.tables.length
  (c.table.key :: c.aliases).forM fun name => modify (·.addName place name)

end Registration

namespace Registry

theorem run_addNames (i : Nat) (names : List String) (r : Registry) :
    (names.forM fun name => modify (·.addName i name) :
      ExceptT Error (StateM Registry) Unit).run r = (.ok (), names.foldl (·.addName i ·) r) := by
  induction names generalizing r with
  | nil => rfl
  | cons name names ih => exact ih (r.addName i name)

/-- A table with a rule for every kind may be registered. -/
theorem register_of_total {t : RuleTable} (h : t.Complete) (r : Registry) (aliases : List String) :
    r.register t aliases = .ok (r.add t aliases) := by
  rw [register, RuleTable.validate_eq_ok_iff.2 h]
  rfl

/-- The changes in place make of a registry what registering makes of it, and nothing if that is an
error. -/
theorem run_inPlace (c : Registration) (r : Registry) :
    c.inPlace.run r = match r.register c.table c.aliases with
      | .ok r' => (.ok (), r')
      | .error e => (.error e, r) := by
  cases hv : c.table.validate with
  | error e =>
    simp only [Registration.inPlace, register, hv]
    rfl
  | ok u =>
    have hok : r.register c.table c.aliases = .ok (r.add c.table c.aliases) := by
      rw [register, hv]
      rfl
    unfold Registration.inPlace
    rw [hok, hv, add]
    change (match r.place? c.table.key with
      | some i => _
      | none => _ : ExceptT Error (StateM Registry) Unit).run r = _
    cases r.place? c.table.key with
    | some i => exact run_addNames i _ { r with tables := r.tables.set i c.table }
    | none => exact run_addNames r.tables.length _ { r with tables := r.tables ++ [c.table] }

/-- The registry after a call, accepted or rejected. -/
def call (r : Registry) (c : Registration) : Registry := (c.inPlace.run r).2

/-- The registry after calls one after the other. -/
def run (r : Registry) (calls : List Registration) : Registry := calls.foldl call r

theorem run_concat (r : Registry) (calls : List Registration) (c : Registration) :
    r.run (calls ++ [c]) = (r.run calls).call c := List.foldl_concat ..

theorem call_of_complete {c : Registration} (h : c.table.Complete) (r : Registry) :
    r.call c = r.add c.table c.aliases := by
  rw [call, run_inPlace, register_of_total h]

theorem call_of_not_complete {c : Registration} (h : ¬ c.table.Complete) (r : Registry) :
    r.call c = r := by
  rw [call, run_inPlace, register]
  cases hv : c.table.validate with
  | error e => rfl
  | ok u => exact absurd (RuleTable.validate_eq_ok_iff.1 hv) h

theorem place?_congr {name name' : String} (h : lowerCase name = lowerCase name') (r : Registry) :
    r.place? name = r.place? name' := by
  rw [place?, place?, h]

theorem tables_addNames (i : Nat) (names : List String) (r : Registry) :
    (names.foldl (·.addName i ·) r).tables = r.tables := by
  induction names generalizing r with
  | nil => rfl
  | cons name names ih => exact ih (r.addName i name)

theorem names_addNames (i : Nat) (names : List String) (r : Registry) :
    (names.foldl (·.addName i ·) r).names =
      (names.map fun name => (lowerCase name, i)).reverse ++ r.names := by
  induction names generalizing r with
  | nil => rfl
  | cons name names ih =>
    rw [List.foldl_cons, ih (r.addName i name)]
    simp [addName]

theorem place?_addName (i : Nat) (n : String) (r : Registry) (name : String) :
    (r.addName i n).place? name =
      if lowerCase name = lowerCase n then some i else r.place? name := by
  by_cases h : lowerCase name = lowerCase n
  · simp [place?, addName, h]
  · simp [place?, addName, h, List.lookup_cons, beq_eq_false_iff_ne.2 h]

theorem place?_addNames (i : Nat) (names : List String) (r : Registry) (name : String) :
    (names.foldl (·.addName i ·) r).place? name =
      if lowerCase name ∈ names.map lowerCase then some i else r.place? name := by
  induction names generalizing r with
  | nil => simp
  | cons n names ih =>
    rw [List.foldl_cons, ih (r.addName i n), place?_addName]
    by_cases hmem : lowerCase name ∈ names.map lowerCase <;> simp [hmem]

/-- The place that a table gets: that of its key, or the next one. -/
def placeFor (r : Registry) (t : RuleTable) : Nat := (r.place? t.key).getD r.tables.length

theorem tables_add (r : Registry) (t : RuleTable) (aliases : List String) :
    (r.add t aliases).tables = match r.place? t.key with
      | some i => r.tables.set i t
      | none => r.tables ++ [t] := by
  rw [add]
  cases r.place? t.key <;> exact tables_addNames ..

theorem names_add (r : Registry) (t : RuleTable) (aliases : List String) :
    (r.add t aliases).names =
      ((t.key :: aliases).map fun name => (lowerCase name, r.placeFor t)).reverse ++ r.names := by
  rw [add, placeFor]
  cases r.place? t.key <;> exact names_addNames ..

theorem place?_add (r : Registry) (t : RuleTable) (aliases : List String) (name : String) :
    (r.add t aliases).place? name =
      if lowerCase name ∈ (t.key :: aliases).map lowerCase then some (r.placeFor t)
      else r.place? name := by
  rw [add, placeFor]
  cases r.place? t.key <;> exact place?_addNames ..

/-- What every call keeps: names stand for tables that are there, tables are complete, and every
table's key is a name. -/
structure Sound (r : Registry) : Prop where
  lt : ∀ e ∈ r.names, e.2 < r.tables.length
  complete : ∀ t ∈ r.tables, t.Complete
  named : ∀ t ∈ r.tables, (r.place? t.key).isSome

theorem get_of_no_place {r : Registry} {name : String} (hp : r.place? name = none) :
    r.get name = .error (.unknownFormat name) := by
  rw [get, hp, Option.bind_none]

namespace Sound
variable {r : Registry}

theorem place?_lt (h : r.Sound) {name : String} {i : Nat} (hp : r.place? name = some i) :
    i < r.tables.length := by
  rw [place?, List.lookup_eq_some_iff] at hp
  obtain ⟨before, after, hnames, -⟩ := hp
  exact h.lt (lowerCase name, i) (by rw [hnames]; simp)

/-- No name stands for the place of a table that is new. -/
theorem place?_eq_placeFor_iff (h : r.Sound) (t : RuleTable) {name : String} {i : Nat}
    (hp : r.place? name = some i) : i = r.placeFor t ↔ r.place? t.key = some i := by
  have hi := h.place?_lt hp
  rw [placeFor]
  cases r.place? t.key with
  | none =>
    simp only [Option.getD_none, reduceCtorEq, iff_false]
    omega
  | some j => simp [eq_comm]

theorem getElem?_add (h : r.Sound) (t : RuleTable) (aliases : List String) (i : Nat) :
    (r.add t aliases).tables[i]? = if i = r.placeFor t then some t else r.tables[i]? := by
  rw [tables_add, placeFor]
  cases hp : r.place? t.key with
  | some j =>
    have hj := h.place?_lt hp
    by_cases hi : i = j
    · simp [hi, hj]
    · simp [hi, List.getElem?_set_ne (Ne.symm hi)]
  | none =>
    rw [Option.getD_none]
    obtain hi | rfl | hi := Nat.lt_trichotomy i r.tables.length
    · rw [List.getElem?_append_left hi, if_neg (Nat.ne_of_lt hi)]
    · simp
    · rw [if_neg (Nat.ne_of_gt hi), List.getElem?_eq_none (by simp; omega),
        List.getElem?_eq_none (Nat.le_of_lt hi)]

/-- Tables are replaced or added, and there is one at the place that a table gets. -/
theorem length_add (h : r.Sound) (t : RuleTable) (aliases : List String) :
    r.tables.length ≤ (r.add t aliases).tables.length ∧
      r.placeFor t < (r.add t aliases).tables.length := by
  rw [tables_add, placeFor]
  cases hp : r.place? t.key with
  | some i => simpa using h.place?_lt hp
  | none => simp

theorem add (h : r.Sound) {t : RuleTable} (ht : t.Complete) (aliases : List String) :
    (r.add t aliases).Sound := by
  have hmem {u : RuleTable} (hu : u ∈ (r.add t aliases).tables) :
      u = t ∨ u ∈ r.tables := by
    obtain ⟨i, hi⟩ := List.mem_iff_getElem?.1 hu
    rw [h.getElem?_add] at hi
    split at hi
    · exact .inl (Option.some.inj hi).symm
    · exact .inr (List.mem_of_getElem? hi)
  obtain ⟨hlength, hplace⟩ := h.length_add t aliases
  refine {
    lt := fun e he => ?_
    complete := fun u hu => ?_
    named := fun u hu => ?_ }
  · rw [names_add, List.mem_append, List.mem_reverse, List.mem_map] at he
    obtain ⟨name, -, rfl⟩ | he := he
    · exact hplace
    · exact Nat.lt_of_lt_of_le (h.lt e he) hlength
  · obtain rfl | hu := hmem hu
    · exact ht
    · exact h.complete u hu
  · rw [place?_add]
    split
    · rfl
    · next hnot =>
      obtain rfl | hu := hmem hu
      · exact absurd List.mem_cons_self hnot
      · exact h.named u hu

theorem call (h : r.Sound) (c : Registration) : (r.call c).Sound := by
  by_cases hc : c.table.Complete
  · rw [call_of_complete hc]
    exact h.add hc c.aliases
  · rwa [call_of_not_complete hc]

theorem run (h : r.Sound) (calls : List Registration) : (r.run calls).Sound := by
  induction calls generalizing r with
  | nil => exact h
  | cons c calls ih => exact ih (h.call c)

theorem get_of_place? (h : r.Sound) {name : String} {i : Nat} (hp : r.place? name = some i) :
    ∃ hi : i < r.tables.length, r.get name = .ok r.tables[i] := by
  have hi := h.place?_lt hp
  exact ⟨hi, by rw [get, hp, Option.bind_some, List.getElem?_eq_getElem hi]⟩

theorem get_eq_ok_iff (h : r.Sound) {name : String} {t : RuleTable} :
    r.get name = .ok t ↔ ∃ i, r.place? name = some i ∧ r.tables[i]? = some t := by
  cases hp : r.place? name with
  | none => simp [get_of_no_place hp]
  | some i =>
    obtain ⟨hi, hget⟩ := h.get_of_place? hp
    simp [hget, hi]

theorem supports_iff (h : r.Sound) {name : String} :
    r.supports name ↔ ∃ t, r.get name = .ok t := by
  rw [supports, Option.isSome_iff_exists]
  constructor
  · rintro ⟨i, hp⟩
    obtain ⟨_, hget⟩ := h.get_of_place? hp
    exact ⟨_, hget⟩
  · rintro ⟨t, ht⟩
    obtain ⟨i, hp, -⟩ := h.get_eq_ok_iff.1 ht
    exact ⟨i, hp⟩

theorem complete_of_get (h : r.Sound) {name : String} {t : RuleTable} (ht : r.get name = .ok t) :
    t.Complete := by
  obtain ⟨i, -, hi⟩ := h.get_eq_ok_iff.1 ht
  exact h.complete t (List.mem_of_getElem? hi)

end Sound

theorem sound_empty : empty.Sound := ⟨by simp [empty], by simp [empty], by simp [empty]⟩

theorem standard_eq : standard =
    ⟨[Markdown.table, Html.table, PlainText.table],
      [("text", 2), ("txt", 2), ("html", 1), ("markdown", 0), ("md", 0)]⟩ := rfl

/-- The calls that register the three formats. -/
def standardCalls : List Registration :=
  [⟨Markdown.table, ["markdown"]⟩, ⟨Html.table, []⟩, ⟨PlainText.table, ["text"]⟩]

theorem run_standardCalls : empty.run standardCalls = standard := by
  have hmarkdown : Markdown.table.Complete := fun _ => rfl
  have hhtml : Html.table.Complete := fun _ => rfl
  have hplain : PlainText.table.Complete := fun _ => rfl
  simp only [run, standardCalls, List.foldl_cons, List.foldl_nil, call_of_complete, hmarkdown,
    hhtml, hplain, standard]

/-- The registries that calls make of the empty one or of the standard one. -/
def Reachable (r : Registry) : Prop :=
  ∃ start calls, (start = empty ∨ start = standard) ∧ start.run calls = r

theorem reachable_of_start {start : Registry} (h : start = empty ∨ start = standard) :
    start.Reachable := ⟨start, [], h, List.foldl_nil⟩

theorem sound_of_start {start : Registry} (h : start = empty ∨ start = standard) : start.Sound := by
  obtain rfl | rfl := h
  · exact sound_empty
  · rw [← run_standardCalls]
    exact sound_empty.run standardCalls

theorem Reachable.sound {r : Registry} : r.Reachable → r.Sound
  | ⟨_, calls, hstart, hrun⟩ => hrun ▸ (sound_of_start hstart).run calls

/-- What may be relied on, whatever was registered before. -/
structure Safe (r : Registry) : Prop where
  /-- Every stored place is that of a table. -/
  lt : ∀ e ∈ r.names, e.2 < r.tables.length
  /-- A name that has a place gives the table there, and any other name an error. -/
  get_eq : ∀ name, (∀ i, r.place? name = some i → ∃ h : i < r.tables.length,
      r.get name = .ok r.tables[i]) ∧
    (r.place? name = none → r.get name = .error (.unknownFormat name))
  supports_iff : ∀ name, r.supports name ↔ ∃ t, r.get name = .ok t
  complete : ∀ name t, r.get name = .ok t → t.Complete
  render_ne : ∀ name files tree key kind,
    r.render name files tree ≠ .error (.missingRule key kind)
  /-- A call that is rejected has changed nothing on its way. -/
  rejected : ∀ (c : Registration) (e : Error) (r' : Registry), c.inPlace.run r = (.error e, r') →
    r'.keys = r.keys ∧ ∀ name, r'.get name = r.get name

/-- Whatever tables and aliases calls have registered or failed to register, every stored place is
that of a complete table, so no lookup goes astray and no rendering lacks a rule. -/
theorem safe_of_reachable {r : Registry} (hr : r.Reachable) : r.Safe where
  lt := hr.sound.lt
  get_eq _ := ⟨fun _ => hr.sound.get_of_place?, get_of_no_place⟩
  supports_iff _ := hr.sound.supports_iff
  complete _ _ := hr.sound.complete_of_get
  render_ne name files tree key kind := by
    cases hp : r.place? name with
    | none => simp [render, get_of_no_place hp, bind, Except.bind]
    | some i =>
      obtain ⟨_, hget⟩ := hr.sound.get_of_place? hp
      rw [render, hget]
      exact RuleTable.render_ne_missingRule (hr.sound.complete_of_get hget) files tree key kind
  rejected c e r' h := by
    rw [run_inPlace] at h
    cases hc : r.register c.table c.aliases with
    | ok _ =>
      rw [hc] at h
      cases congrArg Prod.fst h
    | error _ =>
      rw [hc] at h
      obtain rfl : r = r' := congrArg Prod.snd h
      exact ⟨rfl, fun _ => rfl⟩

/-- The standard registry after a call that takes another table's key as an alias, and one that is
rejected. -/
def contested : Registry :=
  standard.run [⟨.uniform "x" {}, ["MD"]⟩, ⟨.empty "html", ["txt"]⟩]

theorem safe_of_reachable_contested :
    contested.Reachable ∧ contested.Safe ∧ contested.keys = ["md", "html", "txt", "x"] ∧
      ∃ t, contested.get "Md" = .ok t ∧ t.key = "x" := by
  have hreachable : contested.Reachable := ⟨standard, _, .inr rfl, rfl⟩
  exact ⟨hreachable, safe_of_reachable hreachable, rfl, _, rfl, rfl⟩

end Registry

end RichText
