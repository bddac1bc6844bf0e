import Mathlib.Tactic.Tauto
import RichText.Json.Decode
import RichText.Proofs.Json.Numeral

/-!
Values that are kept whole. A reader that keeps a value takes it exactly if all its strings have a
text, all its numbers are in range, and no more containers stand inside each other than there is
room for.
-/
namespace RichText.Json

theorem twoTo_add (m n : Nat) : twoTo (m + n) = twoTo m * twoTo n := Nat.pow_add 2 m n

theorem twoTo_pos (n : Nat) : 0 < twoTo n := Nat.two_pow_pos n

theorem Collected.addWhole_of_fits (ds : List Nat) {n : Nat} {scale : Int}
    (h : fits (ds.foldl (fun k d => 10 * k + d) n)) :
    addWhole ds ⟨n, scale⟩ = ⟨ds.foldl (fun k d => 10 * k + d) n, scale⟩ := by
  induction ds generalizing n with
  | nil => rfl
  | cons d ds ih =>
    have hle (ds : List Nat) (k : Nat) : k ≤ ds.foldl (fun k d => 10 * k + d) k := by
      induction ds generalizing k with
      | nil => exact Nat.le_refl k
      | cons d ds ih => exact Nat.le_trans (by omega) (ih (10 * k + d))
    have hfits : fits (10 * n + d) := by
      simp only [fits, decide_eq_true_eq] at h ⊢
      exact Nat.lt_of_le_of_lt (hle ds _) h
    rw [addWhole, if_pos hfits]
    exact ih h

theorem Number.foldl_decimalDigits (n : Nat) :
    (decimalDigits n).foldl (fun k d => 10 * k + d) 0 = n := by
  rw [decimalDigits, List.foldl_map]
  exact digitsValue_toDigits n

/-- Whole numbers that a binary64 holds are in range. -/
theorem Number.inRange_ofInt {n : Nat} (h : n < twoTo 53) : (Number.ofInt n).inRange := by
  have hfits : Collected.fits ((decimalDigits n).foldl (fun k d => 10 * k + d) 0) := by
    rw [foldl_decimalDigits, Collected.fits, decide_eq_true_eq]
    exact Nat.lt_trans h (by decide)
  have hround : roundToDouble n = n := if_pos h
  have hone : roundToDouble (Nat.pow 10 (0 : Int).toNat) = 1 := by decide
  have hmax : n < twoTo 1024 - twoTo 970 := by
    have hsplit : twoTo 1024 = twoTo 54 * twoTo 970 := twoTo_add 54 970
    have hpos : 0 < twoTo 970 := twoTo_pos 970
    have hdigits : twoTo 53 = 9007199254740992 := by decide
    have hfactor : twoTo 54 = 18014398509481984 := by decide
    rw [hdigits] at h
    rw [hfactor] at hsplit
    generalize twoTo 970 = x at hsplit hpos
    omega
  have hcollected : Collected.addWhole (decimalDigits n) ⟨0, 0⟩ = ⟨n, 0⟩ := by
    rw [Collected.addWhole_of_fits (decimalDigits n) hfits, foldl_decimalDigits]
  have hexp : (0 : Int).natAbs < twoTo 31 := by decide
  rw [Number.inRange]
  simp only [Number.ofInt, hcollected, List.map_nil, Collected.addFraction, Option.getD_none, hexp,
    if_true, Collected.inRange, Int.add_zero, hround, hone, Nat.mul_one, hmax]
  simp

namespace Value

mutual
/-- How many containers stand inside each other in a value. -/
def nesting : Value → Nat
  | .array vs => nestingOfAll vs + 1
  | .object ms => nestingOfMembers ms + 1
  | _ => 0
def nestingOfAll : List Value → Nat
  | [] => 0
  | v :: vs => max (nesting v) (nestingOfAll vs)
def nestingOfMembers : List (Option String × Value) → Nat
  | [] => 0
  | (_, v) :: ms => max (nesting v) (nestingOfMembers ms)
end

/-- Strings and keys have a text, and numbers are in range. -/
inductive Strict : Value → Prop
  | null : Strict .null
  | bool (b : Bool) : Strict (.bool b)
  | number {n : Number} : n.inRange → Strict (.number n)
  | text (s : String) : Strict (.text s)
  | array {vs : List Value} : (∀ v ∈ vs, Strict v) → Strict (.array vs)
  | object {ms : List (Option String × Value)} : (∀ m ∈ ms, m.1.isSome) →
      (∀ m ∈ ms, Strict m.2) → Strict (.object ms)

theorem strict_number {n : Number} : Strict (.number n) ↔ n.inRange :=
  ⟨fun | .number h => h, .number⟩

theorem strict_string {s : Option String} : Strict (.string s) ↔ s.isSome := by
  constructor
  · rintro ⟨⟩
    rfl
  · intro h
    obtain ⟨s, rfl⟩ := Option.isSome_iff_exists.1 h
    exact .text s

theorem strict_array {vs : List Value} : Strict (.array vs) ↔ ∀ v ∈ vs, v.Strict :=
  ⟨fun | .array h => h, .array⟩

theorem strict_object {ms : List (Option String × Value)} :
    Strict (.object ms) ↔ (∀ m ∈ ms, m.1.isSome) ∧ ∀ m ∈ ms, m.2.Strict :=
  ⟨fun | .object h h' => ⟨h, h'⟩, fun h => .object h.1 h.2⟩

theorem nestingOfAll_le_iff {vs : List Value} {n : Nat} :
    nestingOfAll vs ≤ n ↔ ∀ v ∈ vs, v.nesting ≤ n := by
  induction vs with
  | nil => simp [nestingOfAll]
  | cons v vs ih => rw [nestingOfAll, Nat.max_le, ih, List.forall_mem_cons]

theorem nestingOfMembers_le_iff {ms : List (Option String × Value)} {n : Nat} :
    nestingOfMembers ms ≤ n ↔ ∀ m ∈ ms, m.2.nesting ≤ n := by
  induction ms with
  | nil => simp [nestingOfMembers]
  | cons m ms ih => rw [nestingOfMembers, Nat.max_le, ih, List.forall_mem_cons]

/-- A container takes one from the room. -/
theorem room_iff {n room : Nat} : 0 < room ∧ n ≤ room - 1 ↔ n + 1 ≤ room := by omega

mutual
theorem keepable_iff : ∀ (v : Value) (room : Nat),
    v.keepable room ↔ v.Strict ∧ v.nesting ≤ room
  | .null, room => by simp [keepable, nesting, Strict.null]
  | .bool b, room => by simp [keepable, nesting, Strict.bool]
  | .number n, room => by simp [keepable, nesting, strict_number]
  | .string s, room => by simp [keepable, nesting, strict_string]
  | .array vs, room => by
    rw [keepable, Bool.and_eq_true, decide_eq_true_eq, allKeepable_iff vs, ← strict_array,
      ← nestingOfAll_le_iff, and_left_comm, room_iff, nesting]
  | .object ms, room => by
    rw [keepable, Bool.and_eq_true, decide_eq_true_eq, allMembersKeepable_iff ms, ← strict_object,
      ← nestingOfMembers_le_iff, and_left_comm, room_iff, nesting]
theorem allKeepable_iff : ∀ (vs : List Value) (room : Nat),
    allKeepable room vs ↔ (∀ v ∈ vs, v.Strict) ∧ ∀ v ∈ vs, v.nesting ≤ room
  | [], room => by simp [allKeepable]
  | v :: vs, room => by
    rw [allKeepable, Bool.and_eq_true, keepable_iff v, allKeepable_iff vs, List.forall_mem_cons,
      List.forall_mem_cons]
    exact and_and_and_comm
theorem allMembersKeepable_iff : ∀ (ms : List (Option String × Value)) (room : Nat),
    allMembersKeepable room ms ↔
      ((∀ m ∈ ms, m.1.isSome) ∧ ∀ m ∈ ms, m.2.Strict) ∧ ∀ m ∈ ms, m.2.nesting ≤ room
  | [], room => by simp [allMembersKeepable]
  | (key, v) :: ms, room => by
    rw [allMembersKeepable, Bool.and_eq_true, Bool.and_eq_true, keepable_iff v,
      allMembersKeepable_iff ms, List.forall_mem_cons, List.forall_mem_cons, List.forall_mem_cons]
    tauto
end

theorem strict_ofNat {n : Nat} (h : n < twoTo 53) : (ofNat n).Strict :=
  .number (Number.inRange_ofInt h)

end Value

end RichText.Json
