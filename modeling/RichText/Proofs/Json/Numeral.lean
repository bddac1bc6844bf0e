import RichText.Json.Printer
import RichText.Json.Token

/-!
Numbers as they are written. A number is read back from its characters, all of which are bare, so
that a scanner takes them as one run.
-/
namespace RichText.Json

theorem digitsValue_toDigits (n : Nat) : digitsValue (Nat.toDigits 10 n) = n :=
  Nat.ofDigitChars_ten_toDigits

theorem isDigit_of_mem_toDigits {n : Nat} {c : Char} (hc : c ∈ Nat.toDigits 10 n) : c.isDigit :=
  Nat.isDigit_of_mem_toDigits (by decide) (by decide) hc

theorem exists_toDigits (n : Nat) : ∃ c cs, Nat.toDigits 10 n = c :: cs ∧ c.isDigit := by
  obtain ⟨c, cs, h⟩ := List.exists_cons_of_ne_nil (Nat.toDigits_ne_nil (n := n) (b := 10))
  exact ⟨c, cs, h, isDigit_of_mem_toDigits (h ▸ List.mem_cons_self)⟩

/-- Only zero begins with a zero. -/
theorem toDigits_of_head_zero {n : Nat} (h : (Nat.toDigits 10 n).head? = some '0') :
    Nat.toDigits 10 n = ['0'] := by
  induction n using Nat.strongRecOn with
  | ind n ih =>
    rcases Nat.lt_or_ge n 10 with hn | hn
    · rw [Nat.toDigits_of_lt_base hn] at h ⊢
      simpa using h
    · rw [Nat.toDigits_of_base_le (by decide) hn] at h
      have hhead : (Nat.toDigits 10 (n / 10)).head? = some '0' := by
        rwa [List.head?_append, Option.or_of_isSome] at h
        simp
      have hzero := ih (n / 10) (by omega) hhead
      have hvalue := digitsValue_toDigits (n / 10)
      rw [hzero] at hvalue
      have : digitsValue ['0'] = 0 := rfl
      omega

section
variable {p : Char → Bool} {cs rest : List Char} (hcs : ∀ c ∈ cs, p c)
  (hrest : ∀ c ∈ rest.head?, p c = false)
include hcs hrest

theorem takeWhile_append_of_head : (cs ++ rest).takeWhile p = cs := by
  rw [List.takeWhile_append_of_pos hcs]
  cases rest with
  | nil => simp
  | cons c rest => simp [hrest c rfl]

theorem dropWhile_append_of_head : (cs ++ rest).dropWhile p = rest := by
  rw [List.dropWhile_append_of_pos hcs]
  cases rest with
  | nil => simp
  | cons c rest => simp [hrest c rfl]

end

namespace Number

/-- The characters from the exponent on. -/
def exponentChars : Option Int → List Char
  | none => []
  | some e => 'e' :: (if e < 0 then ['-'] else []) ++ Nat.toDigits 10 e.natAbs

/-- The characters from the point on, without the exponent. -/
def fractionChars (fraction : List (Fin 10)) : List Char :=
  if fraction = [] then [] else '.' :: fraction.map fun d => Nat.digitChar d.val

theorem chars_eq (n : Number) :
    n.chars = (if n.negative then ['-'] else []) ++
      (Nat.toDigits 10 n.whole ++ (fractionChars n.fraction ++ exponentChars n.exponent)) := by
  cases h : n.exponent <;> simp [chars, fractionChars, exponentChars, h]

theorem exponent?_of_head {cs : List Char} (h : ∀ c ∈ cs.head?, c ≠ '+' ∧ c ≠ '-') :
    exponent? cs =
      if cs ≠ [] ∧ cs.all Char.isDigit then some ((1 : Int) * digitsValue cs) else none := by
  cases cs with
  | nil => rfl
  | cons c cs => simp [exponent?, h c rfl]

theorem exponent?_chars (e : Int) :
    exponent? ((if e < 0 then ['-'] else []) ++ Nat.toDigits 10 e.natAbs) = some e := by
  obtain ⟨c, cs, hcs, hc⟩ := exists_toDigits e.natAbs
  have hall : (Nat.toDigits 10 e.natAbs).all Char.isDigit := by
    rw [List.all_eq_true]
    exact fun _ => isDigit_of_mem_toDigits
  by_cases he : e < 0
  · have hnat : -(e.natAbs : Int) = e := by omega
    rw [if_pos he, List.cons_append, List.nil_append]
    simp only [exponent?, ne_eq, Nat.toDigits_ne_nil, not_false_eq_true, hall, and_self, if_true,
      digitsValue_toDigits, Int.neg_mul, Int.one_mul, hnat]
  · have hnat : (e.natAbs : Int) = e := by omega
    have hsign : ∀ c ∈ (Nat.toDigits 10 e.natAbs).head?, c ≠ '+' ∧ c ≠ '-' := by
      rw [hcs]
      intro c' hc'
      obtain rfl := Option.some.inj hc'
      constructor <;> rintro rfl <;> exact absurd hc (by decide)
    rw [if_neg he, List.nil_append, exponent?_of_head hsign, if_pos ⟨Nat.toDigits_ne_nil, hall⟩,
      digitsValue_toDigits, Int.one_mul, hnat]

theorem exponentPart?_chars (e : Option Int) : exponentPart? (exponentChars e) = some e := by
  cases e with
  | none => rfl
  | some e =>
    rw [exponentChars, List.cons_append, exponentPart?, exponent?_chars]
    rfl

theorem not_isDigit_exponentChars (e : Option Int) :
    ∀ c ∈ (exponentChars e).head?, c.isDigit = false := by
  cases e with
  | none => simp [exponentChars]
  | some e =>
    simp only [exponentChars, List.cons_append, List.head?_cons, Option.mem_def,
      Option.some.injEq]
    rintro c rfl
    decide

theorem fractionPart?_chars (fraction : List (Fin 10)) (e : Option Int) :
    fractionPart? (fractionChars fraction ++ exponentChars e) = some (fraction, e) := by
  by_cases hf : fraction = []
  · subst hf
    have hpart := exponentPart?_chars e
    cases e with
    | none => rfl
    | some e =>
      rw [fractionChars, if_pos rfl, List.nil_append]
      rw [exponentChars, List.cons_append] at hpart ⊢
      rw [fractionPart?, hpart]
      · rfl
      · rintro rest hrest
        cases hrest
  · have hdigits : ∀ c ∈ fraction.map fun d => Nat.digitChar d.val, c.isDigit := by
      simp [Nat.isDigit_digitChar]
    have hne : (fraction.map fun d => Nat.digitChar d.val) ≠ [] := by simpa using hf
    have hback : (fraction.map fun d => Nat.digitChar d.val).map
        (fun c => Fin.ofNat 10 (c.toNat - 48)) = fraction := by
      rw [List.map_map]
      refine (List.map_congr_left fun d _ => ?_).trans (List.map_id fraction)
      simp [Nat.toNat_digitChar_sub_48_of_lt_ten d.isLt]
    rw [fractionChars, if_neg hf, List.cons_append, fractionPart?,
      takeWhile_append_of_head hdigits (not_isDigit_exponentChars e),
      dropWhile_append_of_head hdigits (not_isDigit_exponentChars e)]
    simp only [hne, if_false, exponentPart?_chars, Option.map_some, hback]

theorem not_isDigit_tail (fraction : List (Fin 10)) (e : Option Int) :
    ∀ c ∈ (fractionChars fraction ++ exponentChars e).head?, c.isDigit = false := by
  by_cases hf : fraction = []
  · simpa [fractionChars, hf] using not_isDigit_exponentChars e
  · simp only [fractionChars, hf, if_false, List.cons_append, List.head?_cons, Option.mem_def,
      Option.some.injEq]
    rintro c rfl
    decide

theorem ofChars?_of_head {cs : List Char} (h : cs.head? ≠ some '-') :
    ofChars? cs =
      if cs.takeWhile Char.isDigit = [] ∨ ((cs.takeWhile Char.isDigit).head? = some '0' ∧
        cs.takeWhile Char.isDigit ≠ ['0']) then none
      else (fractionPart? (cs.dropWhile Char.isDigit)).map fun (fraction, e) =>
        ⟨false, digitsValue (cs.takeWhile Char.isDigit), fraction, e⟩ := by
  cases cs with
  | nil => rfl
  | cons c cs =>
    have hc : c ≠ '-' := by simpa using h
    simp [ofChars?, hc]

/-- A number is read back from its characters. -/
theorem ofChars?_chars (n : Number) : ofChars? n.chars = some n := by
  obtain ⟨negative, whole, fraction, exponent⟩ := n
  have htail := not_isDigit_tail fraction exponent
  have hdigits : ∀ c ∈ Nat.toDigits 10 whole, c.isDigit := fun _ => isDigit_of_mem_toDigits
  have hlead : ¬(Nat.toDigits 10 whole = [] ∨
      (Nat.toDigits 10 whole).head? = some '0' ∧ Nat.toDigits 10 whole ≠ ['0']) := by
    rintro (hnil | ⟨hzero, hne⟩)
    · exact Nat.toDigits_ne_nil hnil
    · exact hne (toDigits_of_head_zero hzero)
  rw [chars_eq]
  cases negative with
  | true =>
    simp only [ofChars?, if_true, List.cons_append, List.nil_append,
      takeWhile_append_of_head hdigits htail, dropWhile_append_of_head hdigits htail, hlead,
      if_false, fractionPart?_chars, Option.map_some, digitsValue_toDigits]
  | false =>
    obtain ⟨c, cs, hcs, hc⟩ := exists_toDigits whole
    have hhead : (Nat.toDigits 10 whole ++
        (fractionChars fraction ++ exponentChars exponent)).head? ≠ some '-' := by
      rw [hcs]
      rintro hc'
      obtain rfl := Option.some.inj hc'
      exact absurd hc (by decide)
    simp only [Bool.false_eq_true, if_false, List.nil_append]
    rw [ofChars?_of_head hhead, takeWhile_append_of_head hdigits htail,
      dropWhile_append_of_head hdigits htail, if_neg hlead, fractionPart?_chars, Option.map_some,
      digitsValue_toDigits]

theorem isBare_of_isDigit {c : Char} (h : c.isDigit) : isBare c := by
  simp [isBare, Char.isAlphanum, h]

theorem isBare_of_mem_chars {n : Number} {c : Char} (hc : c ∈ n.chars) : isBare c := by
  rw [chars_eq] at hc
  simp only [List.mem_append] at hc
  obtain hsign | hwhole | hfraction | hexponent := hc
  · split at hsign
    · rw [List.mem_singleton.1 hsign]
      decide
    · simp at hsign
  · exact isBare_of_isDigit (isDigit_of_mem_toDigits hwhole)
  · rw [fractionChars] at hfraction
    split at hfraction
    · simp at hfraction
    · obtain rfl | hd := List.mem_cons.1 hfraction
      · decide
      · obtain ⟨d, -, rfl⟩ := List.mem_map.1 hd
        exact isBare_of_isDigit (by simp [Nat.isDigit_digitChar])
  · cases he : n.exponent with
    | none => simp [he, exponentChars] at hexponent
    | some e =>
      rw [he, exponentChars, List.cons_append, List.mem_cons, List.mem_append] at hexponent
      obtain rfl | hminus | hdigits := hexponent
      · decide
      · split at hminus
        · rw [List.mem_singleton.1 hminus]
          decide
        · simp at hminus
      · exact isBare_of_isDigit (isDigit_of_mem_toDigits hdigits)

/-- A number begins with a digit or a minus sign. -/
theorem exists_chars (n : Number) : ∃ c cs, n.chars = c :: cs ∧ (c = '-' ∨ c.isDigit) := by
  rw [chars_eq]
  obtain ⟨c, cs, hcs, hc⟩ := exists_toDigits n.whole
  cases n.negative with
  | true => exact ⟨_, _, rfl, .inl rfl⟩
  | false => exact ⟨c, _, by rw [hcs]; rfl, .inr hc⟩

end Number

theorem scalar?_chars (n : Number) : scalar? n.chars = some (.number n) := by
  obtain ⟨c, cs, hcs, hc⟩ := n.exists_chars
  have hword {w : Char} (hw : w ≠ '-' ∧ w.isDigit = false) (ws : List Char) :
      n.chars ≠ w :: ws := by
    rw [hcs]
    rintro h
    obtain ⟨rfl, -⟩ := List.cons.inj h
    rcases hc with rfl | hc
    · exact hw.1 rfl
    · simp [hw.2] at hc
  have hnull : n.chars ≠ "null".toList := hword (by decide : 'n' ≠ '-' ∧ _) ['u', 'l', 'l']
  have htrue : n.chars ≠ "true".toList := hword (by decide : 't' ≠ '-' ∧ _) ['r', 'u', 'e']
  have hfalse : n.chars ≠ "false".toList := hword (by decide : 'f' ≠ '-' ∧ _) ['a', 'l', 's', 'e']
  rw [scalar?, if_neg hnull, if_neg htrue, if_neg hfalse, Number.ofChars?_chars, Option.map_some]

end RichText.Json
