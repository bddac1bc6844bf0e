import RichText.Render

/-!
Texts up to blanks. Trimming and soft breaks change nothing in a text but its blanks, and where each
character is rewritten by itself, blanks as they are, a text may be trimmed before or after.
-/
namespace RichText

/-- The text without its blanks. -/
def nonblanks (cs : List Char) : List Char := cs.filter fun c => !isBlank c

@[simp] theorem nonblanks_nil : nonblanks [] = [] := rfl

@[simp] theorem nonblanks_append (as bs : List Char) :
    nonblanks (as ++ bs) = nonblanks as ++ nonblanks bs := List.filter_append _ _

theorem nonblanks_cons (c : Char) (cs : List Char) :
    nonblanks (c :: cs) = if isBlank c then nonblanks cs else c :: nonblanks cs := by
  cases h : isBlank c <;> simp [nonblanks, h]

theorem nonblanks_reverse (cs : List Char) : nonblanks cs.reverse = (nonblanks cs).reverse :=
  List.filter_reverse

theorem nonblanks_eq_nil_iff {cs : List Char} : nonblanks cs = [] ↔ ∀ c ∈ cs, isBlank c := by
  simp [nonblanks]

theorem nonblanks_flatMap_softBreak (cs : List Char) :
    nonblanks (cs.flatMap softBreak) = nonblanks cs := by
  induction cs with
  | nil => rfl
  | cons c cs ih =>
    rw [List.flatMap_cons, nonblanks_append, ih, nonblanks_cons, softBreak]
    by_cases hc : c = '\x0b'
    · have hv : isBlank '\x0b' := by decide
      have hn : nonblanks ['\n', '\n'] = [] := by decide
      simp [hc, hv, hn]
    · cases hb : isBlank c <;> simp [hc, hb, nonblanks_cons]

theorem dropEndWhile_append (p : Char → Bool) (as bs : List Char) :
    dropEndWhile p (as ++ bs) =
      if dropEndWhile p bs = [] then dropEndWhile p as else as ++ dropEndWhile p bs := by
  rw [dropEndWhile, List.reverse_append, List.dropWhile_append]
  by_cases h : bs.reverse.dropWhile p = []
  · simp [dropEndWhile, h]
  · simp [dropEndWhile, h]

section
variable {p : Char → Bool} {f : Char → List Char} (hdropped : ∀ c, p c → f c = [c])
include hdropped

/-- Characters may be dropped before or after the others are rewritten, if what the others are
rewritten to begins with a character that is kept. -/
theorem dropWhile_flatMap (hkept : ∀ c, p c = false → ∃ d ds, f c = d :: ds ∧ p d = false)
    (cs : List Char) : (cs.flatMap f).dropWhile p = (cs.dropWhile p).flatMap f := by
  induction cs with
  | nil => rfl
  | cons c cs ih =>
    rw [List.flatMap_cons]
    cases hc : p c with
    | true =>
      rw [hdropped c hc, List.singleton_append, List.dropWhile_cons_of_pos hc,
        List.dropWhile_cons_of_pos hc, ih]
    | false =>
      obtain ⟨d, ds, hd, hpd⟩ := hkept c hc
      rw [List.dropWhile_cons_of_neg (by simp [hc]), List.flatMap_cons, hd, List.cons_append,
        List.dropWhile_cons_of_neg (by simp [hpd])]

theorem dropEndWhile_flatMap (hkept : ∀ c, p c = false → ∃ ds d, f c = ds ++ [d] ∧ p d = false)
    (cs : List Char) : dropEndWhile p (cs.flatMap f) = (dropEndWhile p cs).flatMap f := by
  -- Read from its end, the text is rewritten to the reversed texts of its characters.
  have hreversed : (cs.reverse.flatMap (List.reverse ∘ f)).dropWhile p =
      (cs.reverse.dropWhile p).flatMap (List.reverse ∘ f) := by
    apply dropWhile_flatMap
    · intro c hc
      simp [hdropped c hc]
    · intro c hc
      obtain ⟨ds, d, hd, hpd⟩ := hkept c hc
      exact ⟨d, ds.reverse, by simp [hd], hpd⟩
  rw [dropEndWhile, List.reverse_flatMap, hreversed, dropEndWhile, List.flatMap_reverse]

end

section
variable {p : Char → Bool} (hp : ∀ c, p c → isBlank c)
include hp

theorem nonblanks_dropWhile (cs : List Char) : nonblanks (cs.dropWhile p) = nonblanks cs := by
  induction cs with
  | nil => rfl
  | cons c cs ih =>
    cases hc : p c with
    | true => simp [hc, ih, nonblanks_cons, hp c hc]
    | false => simp [hc]

theorem nonblanks_dropEndWhile (cs : List Char) : nonblanks (dropEndWhile p cs) = nonblanks cs := by
  have h := nonblanks_dropWhile hp cs.reverse
  rw [dropEndWhile, nonblanks_reverse, h, nonblanks_reverse, List.reverse_reverse]

/-- What is dropped at the start is blank. -/
theorem exists_append_dropWhile (cs : List Char) :
    ∃ lead, nonblanks lead = [] ∧ cs = lead ++ cs.dropWhile p := by
  refine ⟨cs.takeWhile p, nonblanks_eq_nil_iff.2 fun c hc => hp c ?_, ?_⟩
  · exact List.all_eq_true.1 List.all_takeWhile c hc
  · rw [List.takeWhile_append_dropWhile]

/-- What is dropped at the end is blank. -/
theorem exists_dropEndWhile_append (cs : List Char) :
    ∃ tail, nonblanks tail = [] ∧ cs = dropEndWhile p cs ++ tail := by
  obtain ⟨lead, hlead, hcs⟩ := exists_append_dropWhile hp cs.reverse
  refine ⟨lead.reverse, by rw [nonblanks_reverse, hlead, List.reverse_nil], ?_⟩
  rw [dropEndWhile, ← List.reverse_append, ← hcs, List.reverse_reverse]

end

theorem nonblanks_trim (cs : List Char) : nonblanks (trim cs) = nonblanks cs := by
  rw [trim, trimEnd, nonblanks_dropEndWhile fun _ h => h, nonblanks_dropWhile fun _ h => h]

theorem trim_eq_nil_iff {cs : List Char} : trim cs = [] ↔ nonblanks cs = [] := by
  constructor
  · intro h
    rw [← nonblanks_trim, h, nonblanks_nil]
  · intro h
    have hd : cs.dropWhile isBlank = [] := by
      rw [← List.append_nil cs, List.dropWhile_append_of_pos (nonblanks_eq_nil_iff.1 h)]
      rfl
    rw [trim, hd]
    rfl

/-- A trimmed text begins with a character that is not blank. -/
theorem head?_trim {cs : List Char} {c : Char} (h : (trim cs).head? = some c) :
    isBlank c = false := by
  have hfirst := List.head?_dropWhile_not isBlank cs
  cases hcs : cs.dropWhile isBlank with
  | nil => simp [trim, hcs, trimEnd] at h
  | cons d ds =>
    rw [hcs, List.head?_cons] at hfirst
    have hkept : trimEnd [d] = [d] := by simp [trimEnd, dropEndWhile, hfirst]
    have htrim : trim cs = [d] ++ trimEnd ds := by
      have happend := dropEndWhile_append isBlank [d] ds
      rw [← trimEnd, ← trimEnd, ← trimEnd, hkept] at happend
      rw [trim, hcs]
      refine happend.trans ?_
      split <;> simp [*]
    rw [htrim, List.cons_append, List.head?_cons, Option.some.injEq] at h
    rwa [← h]

/-- A trimmed text ends with a character that is not blank. -/
theorem getLast?_trim {cs : List Char} {c : Char} (h : (trim cs).getLast? = some c) :
    isBlank c = false := by
  have hlast := List.head?_dropWhile_not isBlank (cs.dropWhile isBlank).reverse
  rw [trim, trimEnd, dropEndWhile, List.getLast?_reverse] at h
  rwa [h] at hlast

theorem trim_trim (cs : List Char) : trim (trim cs) = trim cs := by
  have hfirst : (trim cs).dropWhile isBlank = trim cs := by
    cases h : trim cs with
    | nil => rfl
    | cons c ds =>
      have hc : isBlank c = false := head?_trim (by rw [h, List.head?_cons])
      simp [hc]
  have hlast : trimEnd (trim cs) = trim cs := by
    rw [trimEnd, dropEndWhile]
    cases h : (trim cs).reverse with
    | nil => simpa using h
    | cons c ds =>
      have hlast : (trim cs).getLast? = some c := by rw [← List.head?_reverse, h, List.head?_cons]
      have hc : isBlank c = false := getLast?_trim hlast
      rw [List.dropWhile_cons_of_neg (by simp [hc]), ← h, List.reverse_reverse]
  rw [trim, hfirst, hlast]
end RichText
