import RichText.Proofs.Json.Members
import RichText.Proofs.Json.RoundTrip

/-!
Encoded values and what is decoded from them. All strings of an encoding have a text; numbers,
options and lists are decoded as what was encoded; and an encoded structure is read by the names of
its members, which takes one from the room.
-/
namespace RichText.Json

namespace Value
variable {α : Type}

@[simp] theorem legible_text (s : String) : (text s).legible := by simp [text, legible]

@[simp] theorem legible_ofNat (n : Nat) : (ofNat n).legible := by simp [ofNat, ofInt, legible]

@[simp] theorem legible_ofInt (i : Int) : (ofInt i).legible := by simp [ofInt, legible]

@[simp] theorem legible_ofOption {f : α → Value} (h : ∀ a, (f a).legible) (o : Option α) :
    (ofOption f o).legible := by
  cases o with
  | none => simp [ofOption, legible]
  | some a => exact h a

@[simp] theorem legible_array {vs : List Value} :
    (array vs).legible ↔ ∀ v ∈ vs, v.legible := by
  rw [legible]
  induction vs with
  | nil => simp [allLegible]
  | cons v vs ih => simp [allLegible, ih]

@[simp] theorem legible_record {ms : List (String × Value)} :
    (record ms).legible ↔ ∀ m ∈ ms, m.2.legible := by
  rw [record, legible]
  induction ms with
  | nil => simp [allMembersLegible]
  | cons m ms ih => simp [allMembersLegible, ih]

@[simp] theorem uint32?_ofNat (n : UInt32) : (ofNat n.toNat).uint32? = some n := by
  have hlt : (n.toNat : Int) < UInt32.size := Int.ofNat_lt.2 n.toNat_lt_size
  rw [uint32?, ofNat, ofInt, int?, Number.toInt?_ofInt, Option.bind_eq_bind, Option.bind_some,
    if_pos ⟨Int.natCast_nonneg _, hlt⟩, Int.toNat_natCast, UInt32.ofNat_toNat]

theorem text?_eq_some_iff {v : Value} {s : String} : v.text? = some s ↔ v = text s := by
  cases v <;> simp [text?, text]

theorem toInt?_eq_some_iff {n : Number} {i : Int} : n.toInt? = some i ↔ n = .ofInt i := by
  constructor
  · intro h
    rw [Number.toInt?.eq_def] at h
    split at h
    · obtain rfl := Option.some.inj h
      rfl
    · obtain rfl := Option.some.inj h
      rfl
    · cases h
  · rintro rfl
    exact Number.toInt?_ofInt i

theorem int?_eq_some_iff {v : Value} {i : Int} : v.int? = some i ↔ v = ofInt i := by
  cases v <;> simp [int?, ofInt, toInt?_eq_some_iff]

theorem uint32?_eq_some_iff {v : Value} {n : UInt32} : v.uint32? = some n ↔ v = ofNat n.toNat := by
  constructor
  · intro h
    simp only [uint32?, Option.bind_eq_bind, Option.bind_eq_some_iff, int?_eq_some_iff] at h
    obtain ⟨i, rfl, h⟩ := h
    split_ifs at h with hrange
    obtain rfl := Option.some.inj h
    have htoNat : ((UInt32.ofNat i.toNat).toNat : Int) = i := by
      rw [UInt32.toNat_ofNat_of_lt' (by omega), Int.toNat_of_nonneg hrange.1]
    rw [ofNat, htoNat]
  · rintro rfl
    exact uint32?_ofNat n

@[simp] theorem int64?_ofInt (i : Int64) : (ofInt i.toInt).int64? = some i := by
  have hle : Int64.minValue.toInt ≤ i.toInt := Int64.minValue_le_toInt i
  have hge : i.toInt ≤ Int64.maxValue.toInt := Int64.toInt_le i
  rw [int64?, ofInt, int?, Number.toInt?_ofInt, Option.bind_eq_bind, Option.bind_some,
    if_pos ⟨hle, hge⟩, Int64.ofInt_toInt]

@[simp] theorem nullable?_null (read : Value → Option α) : nullable? read .null = some none := rfl

theorem nullable?_eq_some_iff {read : Value → Option α} {v : Value} {o : Option α} :
    nullable? read v = some o ↔
      v = .null ∧ o = none ∨ v ≠ .null ∧ ∃ a, read v = some a ∧ o = some a := by
  by_cases h : v = .null
  · simp [h, nullable?, eq_comm]
  · have hread : nullable? read v = (read v).map some := nullable?.eq_2 read v h
    simp only [hread, Option.map_eq_some_iff, h, false_and, not_false_eq_true, true_and, false_or,
      ne_eq, eq_comm]

theorem nullable?_ofOption {f : α → Value} {read : Value → Option α}
    (h : ∀ a, read (f a) = some a) (hne : ∀ a, f a ≠ .null) (o : Option α) :
    nullable? read (ofOption f o) = some o := by
  cases o with
  | none => rfl
  | some a =>
    rw [ofOption, nullable?, h]
    · rfl
    · exact hne a

@[simp] theorem nullable?_text (o : Option String) :
    nullable? text? (ofOption text o) = some o := by
  have htext (s : String) : text? (text s) = some s := rfl
  exact nullable?_ofOption htext (by simp [text]) o

@[simp] theorem field_cons (key name : String) (v : Value) (ms : List (String × Value))
    (absent : α) (read : Value → Option α) :
    field ((key, v) :: ms) name absent read =
      if name = key then read v else field ms name absent read := by
  by_cases h : name = key
  · simp [field, h]
  · have hbeq : (name == key) = false := beq_eq_false_iff_ne.2 h
    simp [field, List.lookup_cons, hbeq, h]

/-- A structure is read by the names of its members, of which some may be left out. -/
theorem members?_record_of_sublist {names : List String} {ms : List (String × Value)}
    (hms : (ms.map Prod.fst).Sublist names) (hnames : names.Nodup) :
    members? names (record ms) = some ms := by
  rw [record_eq, members?_object_eq_some_iff, named_map_keyed, List.forall_mem_map]
  refine ⟨fun _ _ => rfl, List.filter_eq_self.2 fun m hm => ?_, hms.nodup hnames⟩
  simpa using hms.subset (List.mem_map_of_mem hm)

/-- A structure with all members is read by their names. -/
theorem members?_record {names : List String} {ms : List (String × Value)}
    (hms : ms.map Prod.fst = names) (hnames : names.Nodup) :
    members? names (record ms) = some ms :=
  members?_record_of_sublist (hms ▸ List.Sublist.refl _) hnames

end Value

namespace Decoder
variable {α : Type}

theorem record_record {names : List String} {ms : List (String × Value)}
    (hms : ms.map Prod.fst = names) (hnames : names.Nodup)
    (read : Nat → List (String × Value) → Option α) (room : Nat) :
    Decoder.record names read (room + 1) (Value.record ms) = read room ms := by
  rw [Decoder.record, Value.members?_record hms hnames]
  rfl

theorem mapM_map_eq_some {β : Type} {f : α → β} {read : β → Option α} {as : List α}
    (h : ∀ a ∈ as, read (f a) = some a) : (as.map f).mapM read = some as := by
  rw [mapM_eq_some_iff, List.forall₂_map_left_iff, List.forall₂_same]
  exact h

theorem list_array {item : Decoder α} {f : α → Value} {room : Nat} {as : List α}
    (h : ∀ a ∈ as, item room (f a) = some a) :
    Decoder.list item (room + 1) (.array (as.map f)) = some as := mapM_map_eq_some h

end Decoder

end RichText.Json
