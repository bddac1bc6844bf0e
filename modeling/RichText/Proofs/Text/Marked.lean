import RichText.Proofs.Text.Gaps

/-!
Texts with a mark between words. A text is written with some mark in it, and the mark stands only
between two characters that are not blank. Such a mark is out of reach of all trimming, so whatever
trims or surrounds the text leaves the marks where they are.
-/
namespace RichText

/-- A text that is written with a mark, at places each alone between two characters that are not
blank. -/
inductive Marked : (List Char → List Char) → Prop
  | nil : Marked fun _ => []
  | keep (c : Char) {f : List Char → List Char} : Marked f → Marked fun mark => c :: f mark
  | part {c d : Char} {f : List Char → List Char} : isBlank c = false → isBlank d = false →
    Marked (fun mark => d :: f mark) → Marked fun mark => c :: (mark ++ d :: f mark)

/-- Pieces of a text that is cut where two words meet. -/
def Meeting (pieces : List (List Char)) : Prop :=
  pieces.IsChain fun before after => wordsMeet before.getLast? after.head?

namespace Marked

/-- A text without a mark. -/
theorem const : ∀ cs : List Char, Marked fun _ => cs
  | [] => nil
  | c :: cs => keep c (const cs)

variable {f g : List Char → List Char}

theorem ite (p : Prop) [Decidable p] (hf : Marked f) (hg : Marked g) :
    Marked fun mark => if p then f mark else g mark := by
  split
  · exact hf
  · exact hg

theorem isEmpty_eq (h : Marked f) (mark mark' : List Char) :
    (f mark).isEmpty = (f mark').isEmpty := by
  cases h <;> rfl

theorem head?_eq (h : Marked f) (mark mark' : List Char) : (f mark).head? = (f mark').head? := by
  cases h <;> rfl

theorem append (hf : Marked f) (hg : Marked g) : Marked fun mark => f mark ++ g mark := by
  induction hf with
  | nil => exact hg
  | keep c _ ih => exact keep c ih
  | part hc hd _ ih =>
    simp only [List.cons_append, List.append_assoc]
    exact part hc hd ih

theorem prepend (lead : List Char) (h : Marked f) : Marked fun mark => lead ++ f mark :=
  (const lead).append h

theorem concat (h : Marked f) (tail : List Char) : Marked fun mark => f mark ++ tail :=
  h.append (const tail)

/-- Text on both sides. -/
theorem enclose (lead : List Char) (h : Marked f) (tail : List Char) :
    Marked fun mark => lead ++ f mark ++ tail :=
  (h.prepend lead).concat tail

/-- Where two words meet, a mark may part them. -/
theorem join (hf : Marked f) (hg : Marked g)
    (hmeet : ∀ mark, wordsMeet (f mark).getLast? (g mark).head?) :
    Marked fun mark => f mark ++ (mark ++ g mark) := by
  induction hf with
  | nil => simp [wordsMeet] at hmeet
  | @keep c f hf ih =>
    cases hf with
    | nil =>
      -- Here the words meet, and the second text begins with a character.
      cases hg with
      | nil => simp [wordsMeet] at hmeet
      | keep d hg =>
        obtain ⟨hc, hd⟩ : isBlank c = false ∧ isBlank d = false := by
          simpa [wordsMeet] using hmeet
        exact part hc hd (keep d hg)
      | @part d e g hd he hg =>
        obtain ⟨hc, -⟩ : isBlank c = false ∧ isBlank d = false := by
          simpa [wordsMeet] using hmeet
        exact part hc hd (part hd he hg)
    | keep d hf =>
      simp only [List.getLast?_cons_cons] at hmeet ih
      exact keep c (ih hmeet)
    | part hd he hf =>
      simp only [List.getLast?_cons_cons] at hmeet ih
      exact keep c (ih hmeet)
  | @part c d f hc hd _ ih =>
    have hlast (mark : List Char) :
        (c :: (mark ++ d :: f mark)).getLast? = (d :: f mark).getLast? := by
      rw [← List.cons_append, List.getLast?_append, List.getLast?_cons, Option.some_or]
    simp only [hlast] at hmeet
    simp only [List.cons_append, List.append_assoc] at ih ⊢
    exact part hc hd (ih hmeet)

/-- Read from its end, a text has the mark reversed. -/
theorem reverse (h : Marked f) : Marked fun mark => (f mark.reverse).reverse := by
  induction h with
  | nil => exact nil
  | keep c _ ih =>
    simp only [List.reverse_cons]
    exact ih.concat [c]
  | @part c d f hc hd _ ih =>
    have hjoin := ih.join (const [c]) fun mark => by simp [wordsMeet, hc, hd]
    simpa using hjoin

theorem getLast?_eq (h : Marked f) (mark mark' : List Char) :
    (f mark).getLast? = (f mark').getLast? := by
  have hhead := h.reverse.head?_eq mark.reverse mark'.reverse
  simpa using hhead

section
variable {p : Char → Bool} (hp : ∀ c, p c → isBlank c)
include hp

theorem dropWhile (h : Marked f) : Marked fun mark => (f mark).dropWhile p := by
  induction h with
  | nil => exact nil
  | keep c h ih =>
    cases hc : p c with
    | true => simpa only [List.dropWhile_cons, hc, if_true] using ih
    | false => simpa only [List.dropWhile_cons, hc, Bool.false_eq_true, if_false] using h.keep c
  | @part c d f hc hd h ih =>
    have hpc : p c = false := by
      rw [Bool.eq_false_iff]
      intro hpc
      simp [hp c hpc] at hc
    simpa only [List.dropWhile_cons, hpc, Bool.false_eq_true, if_false] using h.part hc hd

theorem dropEndWhile (h : Marked f) : Marked fun mark => dropEndWhile p (f mark) := by
  have hdropped := (h.reverse.dropWhile hp).reverse
  simp only [List.reverse_reverse] at hdropped
  exact hdropped

end

theorem trim (h : Marked f) : Marked fun mark => trim (f mark) :=
  (h.dropWhile fun _ hc => hc).dropEndWhile fun _ hc => hc

theorem finishDocument (h : Marked f) : Marked fun mark => finishDocument (f mark) := by
  have hbody : Marked fun mark => trimEnd ((f mark).dropWhile (· = '\n')) :=
    (h.dropWhile fun _ => isBlank_of_eq_newline).dropEndWhile fun _ hc => hc
  have hempty (mark : List Char) : (trimEnd ((f mark).dropWhile (· = '\n'))).isEmpty =
      (trimEnd ((f []).dropWhile (· = '\n'))).isEmpty := hbody.isEmpty_eq mark []
  have hclosed (mark : List Char) : RichText.finishDocument (f mark) =
      if (trimEnd ((f mark).dropWhile (· = '\n'))).isEmpty then []
      else trimEnd ((f mark).dropWhile (· = '\n')) ++ ['\n'] := by
    unfold RichText.finishDocument
    cases trimEnd ((f mark).dropWhile (· = '\n')) <;> rfl
  simp only [hclosed, hempty]
  exact ite _ nil (hbody.concat ['\n'])

/-- A mark stands between pieces of the text whose words meet without it. -/
theorem exists_pieces (h : Marked f) : ∃ piece rest, Meeting (piece :: rest) ∧
    ∀ mark, f mark = mark.intercalate (piece :: rest) := by
  induction h with
  | nil => exact ⟨[], [], .singleton _, fun mark => by simp⟩
  | @keep c f _ ih =>
    obtain ⟨piece, rest, hchain, heq⟩ := ih
    refine ⟨c :: piece, rest, ?_, fun mark => ?_⟩
    · cases rest with
      | nil => exact .singleton _
      | cons next rest =>
        rw [Meeting, List.isChain_cons_cons] at hchain ⊢
        cases piece with
        | nil => simp [wordsMeet] at hchain
        | cons e piece => rwa [List.getLast?_cons_cons]
    · cases rest <;> simp [heq, List.intercalate_cons_cons]
  | @part c d f hc hd _ ih =>
    obtain ⟨piece, rest, hchain, heq⟩ := ih
    refine ⟨[c], piece :: rest, ?_, fun mark => ?_⟩
    · -- The first piece begins as the text does, since it is empty only if the text is.
      have hfirst : piece.head? = some d := by
        have hnone := heq []
        cases piece with
        | nil =>
          cases rest with
          | nil => simp at hnone
          | cons next rest => simp [Meeting, wordsMeet] at hchain
        | cons e piece =>
          cases rest <;> simp [List.intercalate_cons_cons] at hnone <;> simp [hnone.1]
      rw [Meeting, List.isChain_cons_cons]
      exact ⟨by simp [wordsMeet, hfirst, hc, hd], hchain⟩
    · rw [List.intercalate_cons_cons, ← heq, List.append_assoc, List.singleton_append]

end Marked

/-- Nothing stands between the pieces. -/
theorem intercalate_nil (pieces : List (List Char)) :
    ([] : List Char).intercalate pieces = pieces.flatten := by
  induction pieces with
  | nil => rfl
  | cons piece rest ih =>
    cases rest with
    | nil => simp
    | cons next rest => simp [List.intercalate_cons_cons, ih]

theorem length_intercalate (mark piece : List Char) (rest : List (List Char)) :
    (mark.intercalate (piece :: rest)).length =
      (piece :: rest).flatten.length + rest.length * mark.length := by
  induction rest generalizing piece with
  | nil => simp
  | cons next rest ih =>
    simp only [List.intercalate_cons_cons, List.length_append, ih, List.flatten_cons,
      List.length_cons, Nat.succ_mul]
    omega

/-- Something stands between the pieces unless there is only one. -/
theorem intercalate_eq_flatten_iff {c : Char} {pieces : List (List Char)} (h : pieces ≠ []) :
    [c].intercalate pieces = pieces.flatten ↔ pieces.length = 1 := by
  obtain ⟨piece, rest, rfl⟩ := List.exists_cons_of_ne_nil h
  constructor
  · intro heq
    have hlength := length_intercalate [c] piece rest
    rw [heq, List.length_singleton] at hlength
    rw [List.length_cons]
    omega
  · intro hlength
    obtain rfl : rest = [] := by simpa using hlength
    simp

end RichText
