import RichText.Proofs.Lists
import RichText.Proofs.Markdown.Lookalikes

/-!
Escaped text of Markdown. A reader takes it from left to right in atoms: a backslash with the
character behind it, an entity, or a character as it is. What is written for a character is one
atom, whatever follows, so the text is read back, and no character of markup stands in it but as
part of such an atom. Writing it takes one pass; three passes, each over all that the one before
left, write the same.
-/
namespace RichText.Markdown

/-- The characters of markup inside a line. -/
def spanMarks : List Char := ['\x60', '*', '_', '[', ']']

inductive Entity where
  | amp | lt | gt
  deriving DecidableEq, Repr

namespace Entity

/-- What the entity stands for. -/
def char : Entity → Char
  | amp => '&'
  | lt => '<'
  | gt => '>'

def text : Entity → List Char
  | amp => "&amp;".toList
  | lt => "&lt;".toList
  | gt => "&gt;".toList

end Entity

/-- What is read at once. -/
inductive Atom where
  /-- A character behind a backslash. -/
  | pair (c : Char)
  | entity (e : Entity)
  | plain (c : Char)
  deriving DecidableEq, Repr

namespace Atom

def char : Atom → Char
  | pair c => c
  | entity e => e.char
  | plain c => c

def text : Atom → List Char
  | pair c => ['\\', c]
  | entity e => e.text
  | plain c => [c]

/-- Nothing of markup stands as it is, and nothing that has an entity stands behind a backslash. -/
def Tidy : Atom → Prop
  | pair c => ∀ e : Entity, c ≠ e.char
  | entity _ => True
  | plain c => c ≠ '\\' ∧ c ∉ spanMarks ∧ ∀ e : Entity, c ≠ e.char

end Atom

/-- The atoms of a text, from left to right. -/
def atoms : List Char → List Atom
  | '\\' :: c :: cs => .pair c :: atoms cs
  | '&' :: 'a' :: 'm' :: 'p' :: ';' :: cs => .entity .amp :: atoms cs
  | '&' :: 'l' :: 't' :: ';' :: cs => .entity .lt :: atoms cs
  | '&' :: 'g' :: 't' :: ';' :: cs => .entity .gt :: atoms cs
  | c :: cs => .plain c :: atoms cs
  | [] => []

/-- What a reader makes of escaped text. -/
def read (cs : List Char) : List Char := (atoms cs).map Atom.char

/-! ### Reading -/

/-- A tidy atom is read as it was written, whatever stands behind it. -/
theorem atoms_append {a : Atom} (h : a.Tidy) (cs : List Char) :
    atoms (a.text ++ cs) = a :: atoms cs := by
  cases a with
  | pair c => rfl
  | entity e => cases e <;> rfl
  | plain c =>
    have hamp : c ≠ '&' := h.2.2 .amp
    have hbackslash : c ≠ '\\' := h.1
    rw [Atom.text, List.singleton_append, atoms.eq_def]
    split <;> simp_all

theorem atoms_flatMap {as : List Atom} (h : ∀ a ∈ as, a.Tidy) :
    atoms (as.flatMap Atom.text) = as := by
  induction as with
  | nil => rfl
  | cons a as ih =>
    rw [List.forall_mem_cons] at h
    rw [List.flatMap_cons, atoms_append h.1, ih h.2]

/-- The atom that is written for a character in its column. -/
def atomIn (column : Column) (c : Char) : Atom :=
  if isMark column c ∨ c = '\\' ∨ c ∈ spanMarks then .pair c
  else if c = '&' then .entity .amp
  else if c = '<' then .entity .lt
  else if c = '>' then .entity .gt
  else .plain c

@[simp] theorem char_atomIn (column : Column) (c : Char) : (atomIn column c).char = c := by
  unfold atomIn
  split_ifs <;> simp_all [Atom.char, Entity.char]

theorem text_atomIn (column : Column) (c : Char) : (atomIn column c).text = escapeIn column c := by
  rw [escapeIn_eq, escapeChar, atomIn]
  split_ifs <;> simp_all [Atom.text, Entity.text, spanMarks]

theorem tidy_atomIn (column : Column) (c : Char) : (atomIn column c).Tidy := by
  unfold atomIn
  split_ifs with hpair hamp hlt hgt
  · rintro e rfl
    rcases hpair with hmark | hc
    · revert hmark
      cases column <;> cases e <;> decide
    · revert hc
      cases e <;> decide
  · trivial
  · trivial
  · trivial
  · rw [not_or, not_or] at hpair
    refine ⟨hpair.2.1, hpair.2.2, ?_⟩
    rintro (_ | _ | _)
    · exact hamp
    · exact hlt
    · exact hgt

/-- The atoms that are written for a text. -/
def written (text : List Char) : List Atom :=
  (inColumns .first text).map fun e => atomIn e.1 e.2

theorem tidy_of_mem_written {text : List Char} : ∀ a ∈ written text, a.Tidy := by
  intro a ha
  obtain ⟨e, -, rfl⟩ := List.mem_map.1 ha
  exact tidy_atomIn e.1 e.2

theorem escape_eq_flatMap (text : List Char) : escape text = (written text).flatMap Atom.text := by
  rw [escape, escapeFrom_eq, escapeAll, written, List.flatMap_map]
  exact List.flatMap_congr fun e _ => (text_atomIn e.1 e.2).symm

theorem atoms_escape (text : List Char) : atoms (escape text) = written text := by
  rw [escape_eq_flatMap, atoms_flatMap tidy_of_mem_written]

theorem map_snd_inColumns (column : Column) (text : List Char) :
    (inColumns column text).map Prod.snd = text := by
  induction text generalizing column with
  | nil => rfl
  | cons c text ih => rw [inColumns, List.map_cons, ih]

theorem read_escape (text : List Char) : read (escape text) = text := by
  rw [read, atoms_escape, written, List.map_map]
  calc (inColumns .first text).map (Atom.char ∘ fun e => atomIn e.1 e.2)
      = (inColumns .first text).map Prod.snd := List.map_congr_left fun e _ => char_atomIn e.1 e.2
    _ = text := map_snd_inColumns .first text

/-! ### Markup -/

theorem opensBlock_of_mem_escape {text line : List Char}
    (h : line ∈ (escape text).splitOn '\n') : opensBlock line = false := by
  have hopens : opens .first (escape text) = false := by
    rw [escape, escapeFrom_eq, opens_escapeAll, slips_inColumns]
  rw [Bool.eq_false_iff]
  intro hline
  exact Bool.eq_false_iff.1 hopens (opens_first_iff.2 ⟨line, h, hline⟩)

namespace Atom
variable {a : Atom} {lead tail : List Char} {c : Char}

theorem eq_of_text_pair (h : (pair c).text = lead ++ d :: tail) :
    lead = [] ∧ d = '\\' ∨ lead = ['\\'] ∧ d = c := by
  cases lead with
  | nil => exact .inl ⟨rfl, (List.cons.inj h).1.symm⟩
  | cons b lead =>
    obtain ⟨rfl, hrest⟩ := List.cons.inj h
    obtain ⟨rfl, hc⟩ | ⟨-, hnil⟩ := List.singleton_eq_append_iff.1 hrest
    · exact .inr ⟨rfl, (List.cons.inj hc).1⟩
    · simp at hnil

theorem eq_of_text_plain (h : (plain c).text = lead ++ d :: tail) : lead = [] ∧ d = c := by
  obtain ⟨rfl, hc⟩ | ⟨-, hnil⟩ := List.singleton_eq_append_iff.1 h
  · exact ⟨rfl, (List.cons.inj hc).1⟩
  · simp at hnil

/-- Markup inside a line stands behind a backslash only. -/
theorem Tidy.eq_pair (h : a.Tidy) (htext : a.text = lead ++ c :: tail) (hc : c ∈ spanMarks) :
    a = pair c ∧ lead = ['\\'] := by
  cases a with
  | pair d =>
    obtain ⟨-, rfl⟩ | ⟨rfl, rfl⟩ := eq_of_text_pair htext
    · exact absurd hc (by decide)
    · exact ⟨rfl, rfl⟩
  | entity e =>
    have hnot : ∀ c ∈ e.text, c ∉ spanMarks := by
      cases e <;> simp [Entity.text, spanMarks]
    exact absurd hc (hnot c (by rw [← text, htext]; simp))
  | plain d =>
    obtain ⟨-, rfl⟩ := eq_of_text_plain htext
    exact absurd hc h.2.1

/-- What has an entity begins one, if it stands in the text at all. -/
theorem Tidy.eq_entity (h : a.Tidy) {e : Entity} (htext : a.text = lead ++ e.char :: tail) :
    e = .amp ∧ lead = [] ∧ ∃ e' : Entity, a = entity e' := by
  cases a with
  | pair d =>
    obtain ⟨-, hd⟩ | ⟨-, hd⟩ := eq_of_text_pair htext
    · have hbackslash : e.char ≠ '\\' := by cases e <;> decide
      exact absurd hd hbackslash
    · exact absurd hd.symm (h e)
  | entity e' =>
    cases lead with
    | nil =>
      have hfirst : e'.text.head? = some '&' := by cases e' <;> rfl
      have hamp : e.char = '&' := by
        rw [← text, htext] at hfirst
        exact Option.some.inj hfirst
      refine ⟨?_, rfl, e', rfl⟩
      revert hamp
      cases e <;> decide
    | cons b lead =>
      have hrest : e.char ∉ e'.text.tail := by cases e <;> cases e' <;> decide
      rw [← text, htext] at hrest
      exact absurd (by simp) hrest
  | plain d =>
    obtain ⟨-, hd⟩ := eq_of_text_plain htext
    exact absurd hd.symm (h.2.2 e)

end Atom

/-- A character of markup inside a line is the second of a pair, wherever it stands. -/
theorem exists_pair_of_mem_spanMarks {text before after : List Char} {c : Char}
    (h : escape text = before ++ c :: after) (hc : c ∈ spanMarks) :
    ∃ as bs, atoms (escape text) = as ++ .pair c :: bs ∧
      before = as.flatMap Atom.text ++ ['\\'] := by
  rw [escape_eq_flatMap] at h
  obtain ⟨as, a, bs, lead, tail, hwritten, htext, hbefore, -⟩ := exists_of_flatMap_eq h
  have ha : a ∈ written text := by simp [hwritten]
  obtain ⟨rfl, rfl⟩ := (tidy_of_mem_written a ha).eq_pair htext hc
  exact ⟨as, bs, (atoms_escape text).trans hwritten, hbefore⟩

/-- What has an entity begins one of the three, wherever it stands. -/
theorem exists_entity_of_char {text before after : List Char} {e : Entity}
    (h : escape text = before ++ e.char :: after) :
    e = .amp ∧ ∃ e' : Entity, e'.text <+: '&' :: after := by
  rw [escape_eq_flatMap] at h
  obtain ⟨as, a, bs, lead, tail, hwritten, htext, -, rfl⟩ := exists_of_flatMap_eq h
  have ha : a ∈ written text := by simp [hwritten]
  obtain ⟨rfl, rfl, e', rfl⟩ := (tidy_of_mem_written a ha).eq_entity htext
  have hentity : e'.text = '&' :: tail := htext
  refine ⟨rfl, e', ?_⟩
  rw [hentity]
  exact List.cons_prefix_cons.2 ⟨rfl, List.prefix_append _ _⟩

theorem char_not_mem_escape {e : Entity} (he : e ≠ .amp) (text : List Char) :
    e.char ∉ escape text := by
  intro h
  obtain ⟨before, after, h⟩ := List.append_of_mem h
  exact he (exists_entity_of_char h).1

/-! ### Lines -/

theorem escapeFrom_append (column : Column) (as bs : List Char) :
    escapeFrom column (as ++ bs) =
      escapeFrom column as ++ escapeFrom (as.foldl Column.next column) bs := by
  induction as generalizing column with
  | nil => rfl
  | cons a as ih => simp [escapeFrom, ih]

theorem escape_append_newline (as bs : List Char) :
    escape (as ++ '\n' :: bs) = escape as ++ '\n' :: escape bs := by
  rw [escape, escapeFrom_append, escapeFrom, escapeIn_of_isBlank _ (by decide)]
  rfl

/-- Rewrites the lines of a text one by one. -/
def onLines (f : List Char → List Char) (text : List Char) : List Char :=
  ['\n'].intercalate ((text.splitOn '\n').map f)

/-- Puts a backslash before a sharp that begins the line. -/
def sharpLine (line : List Char) : List Char :=
  if line.head? = some '#' then '\\' :: line else line

/-- Puts a backslash before a point behind the digits that begin the line. -/
def pointLine (line : List Char) : List Char :=
  let digits := line.takeWhile isDecimalDigit
  let rest := line.dropWhile isDecimalDigit
  if digits ≠ [] ∧ rest.head? = some '.' then digits ++ '\\' :: rest else line

theorem newline_not_mem_of_mem_splitOn {text : List Char} :
    ∀ line ∈ text.splitOn '\n', '\n' ∉ line := by
  induction text with
  | nil => simp
  | cons c text ih =>
    rw [List.splitOn_cons_eq_if_modifyHead]
    obtain ⟨first, lines, hlines⟩ := List.exists_cons_of_ne_nil (List.splitOn_ne_nil '\n' text)
    rw [hlines, List.forall_mem_cons] at ih
    split_ifs with hc
    · simpa [hlines] using ih
    · have hfirst : '\n' ∉ c :: first := by
        simpa [ih.1] using fun h : '\n' = c => hc (beq_iff_eq.2 h.symm)
      rw [hlines, List.modifyHead_cons, List.forall_mem_cons]
      exact ⟨hfirst, ih.2⟩

/-- What rewrites a text line by line is known from single lines. -/
theorem eq_onLines {f : List Char → List Char}
    (hf : ∀ as bs, f (as ++ '\n' :: bs) = f as ++ '\n' :: f bs) (text : List Char) :
    f text = onLines f text := by
  have hlines (lines : List (List Char)) (hne : lines ≠ []) :
      f (['\n'].intercalate lines) = ['\n'].intercalate (lines.map f) := by
    induction lines with
    | nil => exact absurd rfl hne
    | cons line lines ih =>
      cases lines with
      | nil => simp
      | cons next lines =>
        have hrest := ih (List.cons_ne_nil next lines)
        simp only [List.map_cons, List.intercalate_cons_cons, List.append_assoc,
          List.singleton_append] at hrest ⊢
        rw [hf, hrest]
  rw [onLines, ← hlines _ (List.splitOn_ne_nil _ _), List.intercalate_splitOn]

theorem onLines_onLines {f g : List Char → List Char} (hf : ∀ line, '\n' ∉ line → '\n' ∉ f line)
    (text : List Char) : onLines g (onLines f text) = onLines (g ∘ f) text := by
  have hsplit : (onLines f text).splitOn '\n' = (text.splitOn '\n').map f := by
    refine List.splitOn_intercalate '\n' ?_ (by simp [List.splitOn_ne_nil])
    rw [List.forall_mem_map]
    exact fun line hline => hf line (newline_not_mem_of_mem_splitOn line hline)
  rw [onLines, hsplit, List.map_map, onLines]

theorem onLines_congr {f g : List Char → List Char} (h : ∀ line, '\n' ∉ line → f line = g line)
    (text : List Char) : onLines f text = onLines g text :=
  congrArg _ <| List.map_congr_left fun line hline =>
    h line (newline_not_mem_of_mem_splitOn line hline)

theorem escapeFrom_later {line : List Char} (h : '\n' ∉ line) :
    escapeFrom .later line = line.flatMap escapeChar := by
  induction line with
  | nil => rfl
  | cons c line ih =>
    rw [List.mem_cons, not_or] at h
    have hnext : Column.later.next c = .later := by simp [Column.next, Ne.symm h.1]
    have hc : escapeIn .later c = escapeChar c := by simp [escapeIn]
    rw [escapeFrom, hc, hnext, ih h.2, List.flatMap_cons]

theorem escapeChar_of_isDecimalDigit {c : Char} (h : isDecimalDigit c) : escapeChar c = [c] := by
  have hne (d : Char) (hd : isDecimalDigit d = false) : c ≠ d := by
    rintro rfl
    simp [hd] at h
  have hspan : ¬ (c = '\\' ∨ c = '\x60' ∨ c = '*' ∨ c = '_' ∨ c = '[' ∨ c = ']') := by
    rintro (rfl | rfl | rfl | rfl | rfl | rfl) <;> exact absurd h (by decide)
  rw [escapeChar, if_neg hspan, if_neg (hne '&' (by decide)), if_neg (hne '<' (by decide)),
    if_neg (hne '>' (by decide))]

theorem head?_flatMap_escapeChar {d : Char} (hd : escapeChar d = [d]) (line : List Char) :
    (line.flatMap escapeChar).head? = some d ↔ line.head? = some d := by
  cases line with
  | nil => rfl
  | cons c line =>
    have hfirst : (escapeChar c).head? = some d ↔ c = d := by
      constructor
      · rw [escapeChar]
        split_ifs
        iterate 4
          rintro ⟨⟩
          exact absurd hd (by decide)
        exact fun h => Option.some.inj h
      · rintro rfl
        rw [hd, List.head?_cons]
    have hne : escapeChar c ≠ [] := by
      rw [escapeChar]
      split_ifs <;> simp
    rw [List.flatMap_cons, List.head?_append_of_ne_nil _ hne, hfirst, List.head?_cons,
      Option.some.injEq]

/-- No point stands behind digits where the line begins with none. -/
theorem pointLine_of_not_digit {line : List Char} (h : ∀ c ∈ line.head?, isDecimalDigit c = false) :
    pointLine line = line := by
  cases line with
  | nil => rfl
  | cons c line => simp [pointLine, h c rfl]

theorem pointLine_append {digits rest : List Char} (hne : digits ≠ [])
    (hdigits : ∀ d ∈ digits, isDecimalDigit d)
    (hrest : ∀ c ∈ rest.head?, isDecimalDigit c = false) :
    pointLine (digits ++ rest) =
      digits ++ if rest.head? = some '.' then '\\' :: rest else rest := by
  have hkept : rest.takeWhile isDecimalDigit = [] ∧ rest.dropWhile isDecimalDigit = rest := by
    cases rest with
    | nil => exact ⟨rfl, rfl⟩
    | cons c rest => simp [hrest c rfl]
  rw [pointLine, List.takeWhile_append_of_pos hdigits, List.dropWhile_append_of_pos hdigits,
    hkept.1, hkept.2, List.append_nil]
  split_ifs <;> simp_all

/-- A line with no digits, or the rest of a line behind its digits. -/
theorem escapeFrom_of_not_digit {column : Column} {line : List Char} (h : '\n' ∉ line)
    (hd : ∀ c ∈ line.head?, isDecimalDigit c = false) :
    escapeFrom column line =
      if line.head?.any (isMark column) then '\\' :: line.flatMap escapeChar
      else line.flatMap escapeChar := by
  cases line with
  | nil => rfl
  | cons c line =>
    rw [List.mem_cons, not_or] at h
    have hnext : column.next c = .later := by simp [Column.next, Ne.symm h.1, hd c rfl]
    rw [escapeFrom, hnext, escapeFrom_later h.2, escapeIn_eq, List.head?_cons, Option.any_some,
      List.flatMap_cons]
    cases hmark : isMark column c with
    | false => rfl
    | true =>
      have hc : escapeChar c = [c] := by
        simp only [isMark, decide_eq_true_eq] at hmark
        rcases hmark with ⟨-, rfl⟩ | ⟨-, rfl⟩ <;> rfl
      rw [hc]
      rfl

theorem ne_of_isDecimalDigit {c d : Char} (hc : isDecimalDigit c) (hd : isDecimalDigit d = false) :
    c ≠ d := by
  rintro rfl
  simp [hd] at hc

theorem escapeFrom_digits {column : Column} (hcolumn : column ≠ .later) {digits : List Char}
    (h : ∀ d ∈ digits, isDecimalDigit d) (rest : List Char) :
    escapeFrom column (digits ++ rest) =
      digits ++ escapeFrom (if digits = [] then column else .afterDigits) rest := by
  induction digits generalizing column with
  | nil => rfl
  | cons d digits ih =>
    rw [List.forall_mem_cons] at h
    have hne (c : Char) (hc : isDecimalDigit c = false) : d ≠ c := ne_of_isDecimalDigit h.1 hc
    have hd : escapeIn column d = [d] := by
      rw [escapeIn_eq, escapeChar_of_isDecimalDigit h.1]
      simp [isMark, hne '#' (by decide), hne '.' isDecimalDigit_point]
    have hnext : column.next d = .afterDigits := by
      simp [Column.next, hcolumn, h.1, hne '\n' (by decide)]
    rw [List.cons_append, escapeFrom, hnext, hd, ih (by decide) h.2]
    simp

theorem flatMap_escapeChar_digits {digits : List Char} (h : ∀ d ∈ digits, isDecimalDigit d) :
    digits.flatMap escapeChar = digits := by
  induction digits with
  | nil => rfl
  | cons d digits ih =>
    rw [List.forall_mem_cons] at h
    rw [List.flatMap_cons, escapeChar_of_isDecimalDigit h.1, ih h.2]
    rfl

/-- One pass over a line does what three do one after the other. -/
theorem escape_line {line : List Char} (h : '\n' ∉ line) :
    escape line = pointLine (sharpLine (line.flatMap escapeChar)) := by
  obtain ⟨digits, rest, hline, hdigits, hrest⟩ : ∃ digits rest, line = digits ++ rest ∧
      (∀ d ∈ digits, isDecimalDigit d) ∧ ∀ c ∈ rest.head?, isDecimalDigit c = false := by
    refine ⟨line.takeWhile isDecimalDigit, line.dropWhile isDecimalDigit,
      List.takeWhile_append_dropWhile.symm, List.all_eq_true.1 List.all_takeWhile, fun c hc => ?_⟩
    have hfirst := List.head?_dropWhile_not isDecimalDigit line
    rwa [hc] at hfirst
  have hrestline : '\n' ∉ rest := fun hn => h (hline ▸ List.mem_append_right digits hn)
  have hkept : ∀ c ∈ (rest.flatMap escapeChar).head?, isDecimalDigit c = false := by
    intro c hc
    rw [Bool.eq_false_iff]
    intro hd
    have hfirst := hrest c ((head?_flatMap_escapeChar (escapeChar_of_isDecimalDigit hd) rest).1 hc)
    simp [hd] at hfirst
  rw [escape, hline, escapeFrom_digits (by decide) hdigits, escapeFrom_of_not_digit hrestline hrest,
    List.flatMap_append, flatMap_escapeChar_digits hdigits]
  cases digits with
  | nil =>
    have hsharp : rest.head?.any (isMark .first) ↔ (rest.flatMap escapeChar).head? = some '#' := by
      rw [head?_flatMap_escapeChar (by decide)]
      cases rest.head? <;> simp [isMark]
    rw [List.nil_append, List.nil_append, if_pos rfl, sharpLine]
    simp only [hsharp]
    split_ifs
    · exact (pointLine_of_not_digit (by simp; decide)).symm
    · exact (pointLine_of_not_digit hkept).symm
  | cons d digits =>
    have hpoint : rest.head?.any (isMark .afterDigits) ↔
        (rest.flatMap escapeChar).head? = some '.' := by
      rw [head?_flatMap_escapeChar (by decide)]
      cases rest.head? <;> simp [isMark]
    have hsharp : d ≠ '#' := ne_of_isDecimalDigit (hdigits d List.mem_cons_self) (by decide)
    have hline : sharpLine (d :: digits ++ rest.flatMap escapeChar) =
        d :: digits ++ rest.flatMap escapeChar := if_neg (by simpa using hsharp)
    rw [hline, pointLine_append (List.cons_ne_nil d digits) hdigits hkept,
      if_neg (List.cons_ne_nil d digits)]
    simp only [hpoint]

theorem newline_not_mem_flatMap_escapeChar {line : List Char} (h : '\n' ∉ line) :
    '\n' ∉ line.flatMap escapeChar := by
  intro hmem
  obtain ⟨c, hc, hn⟩ := List.mem_flatMap.1 hmem
  rw [escapeChar] at hn
  split_ifs at hn with hspan
  · obtain hn | hn := List.mem_pair.1 hn
    · exact absurd hn (by decide)
    · exact h (hn ▸ hc)
  iterate 3 exact absurd hn (by decide)
  exact h (List.mem_singleton.1 hn ▸ hc)

/-- The characters that mean something anywhere are escaped first, then the sharps at the starts of
lines, then the points behind digits. -/
theorem escape_eq_passes (text : List Char) :
    escape text = onLines pointLine (onLines sharpLine (text.flatMap escapeChar)) := by
  have hchars (as bs : List Char) : (as ++ '\n' :: bs).flatMap escapeChar =
      as.flatMap escapeChar ++ '\n' :: bs.flatMap escapeChar := by
    rw [List.flatMap_append, List.flatMap_cons]
    rfl
  have hsharp (line : List Char) (h : '\n' ∉ line) : '\n' ∉ sharpLine line := by
    rw [sharpLine]
    split_ifs <;> simp [h]
  calc escape text = onLines escape text := eq_onLines escape_append_newline text
    _ = onLines ((pointLine ∘ sharpLine) ∘ List.flatMap escapeChar) text :=
      onLines_congr (fun _ => escape_line) text
    _ = onLines pointLine (onLines sharpLine (onLines (List.flatMap escapeChar) text)) := by
      rw [onLines_onLines hsharp, onLines_onLines fun _ => newline_not_mem_flatMap_escapeChar]
    _ = onLines pointLine (onLines sharpLine (text.flatMap escapeChar)) := by
      rw [← eq_onLines hchars]

/-- Escaped text is what three passes leave, each over the whole of what the one before left. It is
read back. None of its lines opens a block, no sign of a tag stands in it, every ampersand begins an
entity, and every character of markup inside a line is the second of a pair. Lines are escaped one
by one. -/
theorem escape_inert (text as bs : List Char) :
    escape text = onLines pointLine (onLines sharpLine (text.flatMap escapeChar)) ∧
      read (escape text) = text ∧
      (∀ line ∈ (escape text).splitOn '\n', opensBlock line = false) ∧
      '<' ∉ escape text ∧ '>' ∉ escape text ∧
      (∀ before after, escape text = before ++ '&' :: after →
        ∃ e : Entity, e.text <+: '&' :: after) ∧
      (∀ before c after, escape text = before ++ c :: after → c ∈ spanMarks →
        ∃ us vs, atoms (escape text) = us ++ .pair c :: vs ∧
          before = us.flatMap Atom.text ++ ['\\']) ∧
      escape (as ++ '\n' :: bs) = escape as ++ '\n' :: escape bs := by
  have hlt : '<' ∉ escape text := char_not_mem_escape (e := .lt) (by decide) text
  have hgt : '>' ∉ escape text := char_not_mem_escape (e := .gt) (by decide) text
  have hamp : ∀ before after, escape text = before ++ '&' :: after →
      ∃ e : Entity, e.text <+: '&' :: after :=
    fun _ _ h => (exists_entity_of_char (e := .amp) h).2
  exact ⟨escape_eq_passes text, read_escape text, fun _ => opensBlock_of_mem_escape, hlt, hgt, hamp,
    fun _ _ _ => exists_pair_of_mem_spanMarks, escape_append_newline as bs⟩

/-- A text with marks at the starts of its lines, a backslash before markup and what looks like an
entity. -/
theorem escape_inert_tangled :
    escape "#1\n٣. \\*&lt;<".toList = "\\#1\n٣\\. \\\\\\*&amp;lt;&lt;".toList ∧
      read "\\#1\n٣\\. \\\\\\*&amp;lt;&lt;".toList = "#1\n٣. \\*&lt;<".toList ∧
      ∃ us vs, atoms (escape "#1\n٣. \\*&lt;<".toList) = us ++ .pair '*' :: vs ∧
        "\\#1\n٣\\. \\\\\\".toList = us.flatMap Atom.text ++ ['\\'] := by
  have hescape : escape "#1\n٣. \\*&lt;<".toList =
      "\\#1\n٣\\. \\\\\\*&amp;lt;&lt;".toList := by decide
  obtain ⟨-, hread, -, -, -, -, hpair, -⟩ := escape_inert "#1\n٣. \\*&lt;<".toList [] []
  refine ⟨hescape, hescape ▸ hread, ?_⟩
  exact hpair _ '*' "&amp;lt;&lt;".toList hescape (by decide)

end RichText.Markdown
