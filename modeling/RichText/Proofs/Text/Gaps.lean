import Mathlib.Data.List.Induction
import RichText.Format.Basic
import RichText.Proofs.Text.Nonblank

/-!
Where the words of a text end. A blank is placed by the characters before it that are not blank, so
that trimming moves no blank that stands between two words.
-/
namespace RichText

/-- For each blank of a text, the number of the other characters before it, of which there are `n`
before the text. -/
def gaps (n : Nat) : List Char → List Nat
  | [] => []
  | c :: cs => if isBlank c then n :: gaps n cs else gaps (n + 1) cs

/-- A blank stands between the `n`th character that is not blank and the next one. -/
def IsGap (cs : List Char) (n : Nat) : Prop :=
  0 < n ∧ n < (nonblanks cs).length ∧ n ∈ gaps 0 cs

instance (cs : List Char) (n : Nat) : Decidable (IsGap cs n) :=
  inferInstanceAs (Decidable (_ ∧ _ ∧ _))

section
variable {k n : Nat} {cs ds : List Char}

theorem length_nonblanks_cons (c : Char) (cs : List Char) :
    (nonblanks (c :: cs)).length = (nonblanks cs).length + if isBlank c then 0 else 1 := by
  cases h : isBlank c <;> simp [nonblanks_cons, h]

theorem gaps_append (k : Nat) (cs ds : List Char) :
    gaps k (cs ++ ds) = gaps k cs ++ gaps (k + (nonblanks cs).length) ds := by
  induction cs generalizing k with
  | nil => rfl
  | cons c cs ih =>
    cases h : isBlank c with
    | true => simp [gaps, ih, h, length_nonblanks_cons]
    | false => simp [gaps, ih, h, length_nonblanks_cons, Nat.add_assoc, Nat.add_comm 1]

theorem mem_gaps_append :
    n ∈ gaps k (cs ++ ds) ↔ n ∈ gaps k cs ∨ n ∈ gaps (k + (nonblanks cs).length) ds := by
  rw [gaps_append, List.mem_append]

theorem bounds_of_mem_gaps (h : n ∈ gaps k cs) : k ≤ n ∧ n ≤ k + (nonblanks cs).length := by
  induction cs generalizing k with
  | nil => simp [gaps] at h
  | cons c cs ih =>
    rw [length_nonblanks_cons]
    cases hc : isBlank c with
    | true =>
      simp only [gaps, hc, if_true, List.mem_cons] at h
      rcases h with rfl | h
      · omega
      · simpa using ih h
    | false =>
      simp only [gaps, hc, Bool.false_eq_true, if_false] at h
      have := ih h
      simp only [Bool.false_eq_true, if_false]
      omega

theorem not_mem_gaps_of_lt (h : n < k) : n ∉ gaps k cs :=
  fun hn => absurd (bounds_of_mem_gaps hn).1 (by omega)

theorem not_mem_gaps_of_gt (h : k + (nonblanks cs).length < n) : n ∉ gaps k cs :=
  fun hn => absurd (bounds_of_mem_gaps hn).2 (by omega)

theorem gaps_nonblanks (k : Nat) (cs : List Char) : gaps k (nonblanks cs) = [] := by
  induction cs generalizing k with
  | nil => rfl
  | cons c cs ih =>
    rw [nonblanks_cons]
    cases hc : isBlank c <;> simp [gaps, hc, ih]

theorem mem_gaps_flatMap_softBreak : n ∈ gaps k (cs.flatMap softBreak) ↔ n ∈ gaps k cs := by
  induction cs generalizing k with
  | nil => rfl
  | cons c cs ih =>
    rw [List.flatMap_cons, mem_gaps_append, ih]
    by_cases hc : c = '\x0b'
    · subst hc
      have hbreak : gaps k (softBreak '\x0b') = [k, k] := rfl
      have hlength : (nonblanks (softBreak '\x0b')).length = 0 := by decide
      have hblank : gaps k ('\x0b' :: cs) = k :: gaps k cs := rfl
      simp [hbreak, hlength, hblank]
    · have hsame : softBreak c = [c] := if_neg hc
      have hcons : gaps k (c :: cs) = gaps k [c] ++ gaps (k + (nonblanks [c]).length) cs :=
        gaps_append k [c] cs
      rw [hsame, hcons, List.mem_append]

/-- The first character is not blank. -/
theorem head?_any_iff (k : Nat) (cs : List Char) :
    cs.head?.any (fun c => !isBlank c) ↔ nonblanks cs ≠ [] ∧ k ∉ gaps k cs := by
  cases cs with
  | nil => simp
  | cons c cs =>
    cases hc : isBlank c with
    | true => simp [gaps, hc]
    | false =>
      have hlater : k ∉ gaps (k + 1) cs := not_mem_gaps_of_lt (by omega)
      simp [gaps, hc, nonblanks_cons, hlater]

/-- The last character is not blank. -/
theorem getLast?_any_iff (k : Nat) (cs : List Char) :
    cs.getLast?.any (fun c => !isBlank c) ↔
      nonblanks cs ≠ [] ∧ k + (nonblanks cs).length ∉ gaps k cs := by
  cases cs using List.reverseRecOn with
  | nil => simp
  | append_singleton cs c =>
    cases hc : isBlank c with
    | true => simp [gaps_append, gaps, nonblanks_cons, hc]
    | false =>
      have hearlier : k + ((nonblanks cs).length + 1) ∉ gaps k cs := not_mem_gaps_of_gt (by omega)
      simp [gaps_append, gaps, nonblanks_cons, hc, hearlier]

theorem mem_gaps_append_left (hn : n < k + (nonblanks cs).length) :
    n ∈ gaps k (cs ++ ds) ↔ n ∈ gaps k cs := by
  rw [mem_gaps_append, or_iff_left (not_mem_gaps_of_lt hn)]

theorem mem_gaps_append_right (hn : k + (nonblanks cs).length < n) :
    n ∈ gaps k (cs ++ ds) ↔ n ∈ gaps (k + (nonblanks cs).length) ds := by
  rw [mem_gaps_append, or_iff_right (not_mem_gaps_of_gt hn)]

section
variable {p : Char → Bool} (hp : ∀ c, p c → isBlank c)
include hp

theorem mem_gaps_dropWhile (hn : k < n) : n ∈ gaps k (cs.dropWhile p) ↔ n ∈ gaps k cs := by
  obtain ⟨lead, hlead, hcs⟩ := exists_append_dropWhile hp cs
  conv_rhs => rw [hcs]
  rw [mem_gaps_append_right (by simpa [hlead] using hn), hlead]
  rfl

theorem mem_gaps_dropEndWhile (hn : n < k + (nonblanks cs).length) :
    n ∈ gaps k (dropEndWhile p cs) ↔ n ∈ gaps k cs := by
  obtain ⟨tail, -, hcs⟩ := exists_dropEndWhile_append hp cs
  conv_rhs => rw [hcs]
  rw [mem_gaps_append_left (by rwa [nonblanks_dropEndWhile hp])]

end

theorem mem_gaps_trim (hk : k < n) (hn : n < k + (nonblanks cs).length) :
    n ∈ gaps k (trim cs) ↔ n ∈ gaps k cs := by
  have hsame : nonblanks (cs.dropWhile isBlank) = nonblanks cs :=
    nonblanks_dropWhile (fun _ h => h) cs
  rw [trim, trimEnd, mem_gaps_dropEndWhile (fun _ h => h) (by rwa [hsame]),
    mem_gaps_dropWhile (fun _ h => h) hk]

theorem not_mem_gaps_trim_start : k ∉ gaps k (trim cs) := by
  by_cases h : trim cs = []
  · simp [h, gaps]
  · have hfirst : (trim cs).head?.any fun c => !isBlank c := by
      rw [List.head?_eq_some_head h]
      simp [head?_trim (List.head?_eq_some_head h)]
    exact ((head?_any_iff k _).1 hfirst).2

theorem not_mem_gaps_trim_end : k + (nonblanks cs).length ∉ gaps k (trim cs) := by
  by_cases h : trim cs = []
  · simp [h, gaps]
  · have hlast : (trim cs).getLast?.any fun c => !isBlank c := by
      rw [List.getLast?_eq_some_getLast h]
      simp [getLast?_trim (List.getLast?_eq_some_getLast h)]
    rw [← nonblanks_trim]
    exact ((getLast?_any_iff k _).1 hlast).2

theorem isGap_trim : IsGap (trim cs) n ↔ IsGap cs n := by
  rw [IsGap, IsGap, nonblanks_trim]
  refine and_congr_right fun hpos => and_congr_right fun hn => ?_
  exact mem_gaps_trim hpos (by rwa [Nat.zero_add])

/-- Blanks behind a text part no words. -/
theorem isGap_append (hds : nonblanks ds = []) : IsGap (cs ++ ds) n ↔ IsGap cs n := by
  rw [IsGap, IsGap, nonblanks_append, hds, List.append_nil]
  refine and_congr_right fun _ => and_congr_right fun hn => ?_
  exact mem_gaps_append_left (by rwa [Nat.zero_add])

theorem mem_of_mem_indentation {unit : String} {depth : Nat} {c : Char}
    (h : c ∈ indentation unit depth) : c ∈ unit.toList := by
  obtain ⟨cs, hcs, hc⟩ := List.mem_flatten.1 h
  rwa [List.eq_of_mem_replicate hcs] at hc

theorem finishDocument_eq (body : List Char) : ∃ tail, nonblanks tail = [] ∧
    finishDocument body = trimEnd (body.dropWhile (· = '\n')) ++ tail := by
  rw [finishDocument]
  cases trimEnd (body.dropWhile (· = '\n')) with
  | nil => exact ⟨[], rfl, rfl⟩
  | cons c text => exact ⟨['\n'], by decide, rfl⟩

theorem isBlank_of_eq_newline {c : Char} (h : decide (c = '\n')) : isBlank c := by
  rw [of_decide_eq_true h]
  decide

theorem isBlank_of_eq_tab {c : Char} (h : decide (c = '\t')) : isBlank c := by
  rw [of_decide_eq_true h]
  decide

theorem nonblanks_finishDocument (body : List Char) :
    nonblanks (finishDocument body) = nonblanks body := by
  obtain ⟨tail, htail, hbody⟩ := finishDocument_eq body
  rw [hbody, nonblanks_append, htail, List.append_nil, trimEnd,
    nonblanks_dropEndWhile fun _ h => h, nonblanks_dropWhile fun _ => isBlank_of_eq_newline]

theorem isGap_finishDocument {body : List Char} : IsGap (finishDocument body) n ↔ IsGap body n := by
  obtain ⟨tail, htail, hbody⟩ := finishDocument_eq body
  have hsame : nonblanks (body.dropWhile (· = '\n')) = nonblanks body :=
    nonblanks_dropWhile (fun _ => isBlank_of_eq_newline) body
  rw [hbody, isGap_append htail, IsGap, IsGap, trimEnd, nonblanks_dropEndWhile fun _ h => h, hsame]
  refine and_congr_right fun hpos => and_congr_right fun hn => ?_
  rw [mem_gaps_dropEndWhile (fun _ h => h) (by rwa [hsame, Nat.zero_add]),
    mem_gaps_dropWhile (fun _ => isBlank_of_eq_newline) hpos]

end

end RichText
