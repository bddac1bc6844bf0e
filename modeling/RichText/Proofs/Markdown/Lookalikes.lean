import RichText.Proofs.Render.Ordinary
import RichText.Proofs.Text.Gaps

/-!
Lines of Markdown that open a block. Text is escaped run by run, each as if it began a line, and is
put together and trimmed afterwards. So a line of the output opens a block exactly if some character
makes it do so in its place in the trimmed paragraph, but would not in its place in its run.
-/
namespace RichText

namespace Markdown

/-- Whether a line opens a heading or an ordered list. -/
def opensBlock : List Char → Bool
  | [] => false
  | c :: cs => c = '#' || isDecimalDigit c && (cs.dropWhile isDecimalDigit).head? = some '.'

/-- Whether a character in its column opens a block. -/
def isMark (column : Column) (c : Char) : Bool :=
  column = .first ∧ c = '#' ∨ column = .afterDigits ∧ c = '.'

/-- Whether some line of a text opens a block, if the text goes on in a column. -/
def opens (column : Column) : List Char → Bool
  | [] => false
  | c :: cs => isMark column c || opens (column.next c) cs

/-- Whether a line opens a block, if it goes on in a column. -/
def opensFrom : Column → List Char → Bool
  | .first, line => opensBlock line
  | .afterDigits, line => (line.dropWhile isDecimalDigit).head? = some '.'
  | .later, _ => false

theorem isDecimalDigit_point : isDecimalDigit '.' = false := by decide

theorem opensFrom_cons {column : Column} {c : Char} (hc : c ≠ '\n') (line : List Char) :
    opensFrom column (c :: line) = (isMark column c || opensFrom (column.next c) line) := by
  cases column with
  | first =>
    cases hd : isDecimalDigit c <;> simp [opensFrom, opensBlock, isMark, Column.next, hc, hd]
  | afterDigits =>
    cases hd : isDecimalDigit c with
    | false => simp [opensFrom, isMark, Column.next, hc, hd]
    | true =>
      have hpoint : c ≠ '.' := by
        rintro rfl
        simp [isDecimalDigit_point] at hd
      simp [opensFrom, isMark, Column.next, hc, hd, hpoint]
  | later => simp [opensFrom, isMark, Column.next, hc]

/-- The columns of a text tell which of its lines open a block. -/
theorem opens_eq (column : Column) (text : List Char) : ∃ line lines,
    text.splitOn '\n' = line :: lines ∧
      opens column text = (opensFrom column line || lines.any opensBlock) := by
  induction text generalizing column with
  | nil => exact ⟨[], [], rfl, by cases column <;> rfl⟩
  | cons c text ih =>
    obtain ⟨line, lines, hlines, htext⟩ := ih (column.next c)
    rw [List.splitOn_cons_eq_if_modifyHead, hlines, opens, htext]
    by_cases hc : c = '\n'
    · subst hc
      have hmark : isMark column '\n' = false := by cases column <;> rfl
      have hempty : opensFrom column [] = false := by cases column <;> rfl
      have hnext : column.next '\n' = .first := rfl
      refine ⟨[], line :: lines, by simp, ?_⟩
      rw [hmark, hempty, hnext]
      rfl
    · refine ⟨c :: line, lines, by simp [hc], ?_⟩
      rw [opensFrom_cons hc, Bool.or_assoc]

theorem opens_first_iff {text : List Char} :
    opens .first text ↔ ∃ line ∈ text.splitOn '\n', opensBlock line := by
  obtain ⟨line, lines, hlines, htext⟩ := opens_eq .first text
  rw [hlines, htext, opensFrom]
  simp

theorem opens_append (column : Column) (cs ds : List Char) :
    opens column (cs ++ ds) = (opens column cs || opens (cs.foldl Column.next column) ds) := by
  induction cs generalizing column with
  | nil => rfl
  | cons c cs ih => simp [opens, ih, Bool.or_assoc]

theorem isMark_of_isBlank (column : Column) {c : Char} (hc : isBlank c) :
    isMark column c = false := by
  have hsharp : c ≠ '#' := by
    rintro rfl
    exact absurd hc (by decide)
  have hpoint : c ≠ '.' := by
    rintro rfl
    exact absurd hc (by decide)
  simp [isMark, hsharp, hpoint]

/-- Blanks open nothing. -/
theorem opens_blank (column : Column) {cs : List Char} (h : nonblanks cs = []) :
    opens column cs = false := by
  induction cs generalizing column with
  | nil => rfl
  | cons c cs ih =>
    have hc : isBlank c ∧ nonblanks cs = [] := by
      cases hb : isBlank c <;> simp [nonblanks_cons, hb] at h ⊢
      exact h
    rw [opens, isMark_of_isBlank column hc.1, ih _ hc.2]
    rfl

theorem opens_dropEndWhile {p : Char → Bool} (hp : ∀ c, p c → isBlank c) (column : Column)
    (cs : List Char) : opens column (dropEndWhile p cs) = opens column cs := by
  obtain ⟨tail, htail, hcs⟩ := exists_dropEndWhile_append hp cs
  conv_rhs => rw [hcs, opens_append, opens_blank _ htail, Bool.or_false]

theorem escapeIn_eq (column : Column) (c : Char) :
    escapeIn column c = if isMark column c then ['\\', c] else escapeChar c := by
  simp [escapeIn, isMark]

/-- A character that no line depends on: no mark in any column, no digit and no line break. -/
def isNeutral (c : Char) : Bool :=
  c ≠ '#' && c ≠ '.' && c ≠ '\n' && !isDecimalDigit c

theorem isMark_of_isNeutral (column : Column) {c : Char} (h : isNeutral c) :
    isMark column c = false := by
  simp only [isNeutral, Bool.and_eq_true, decide_eq_true_eq] at h
  simp [isMark, h.1.1]

theorem next_of_isNeutral (column : Column) {c : Char} (h : isNeutral c) :
    column.next c = .later := by
  simp only [isNeutral, Bool.and_eq_true, decide_eq_true_eq, Bool.not_eq_true'] at h
  simp [Column.next, h.1.2, h.2]

/-- The rest of a line that is under way opens nothing. -/
theorem opens_later {cs : List Char} (h : '\n' ∉ cs) (rest : List Char) :
    opens .later (cs ++ rest) = opens .later rest := by
  induction cs with
  | nil => rfl
  | cons c cs ih =>
    simp only [List.mem_cons, not_or] at h
    simp [opens, isMark, Column.next, Ne.symm h.1, ih h.2]

theorem opens_neutral_cons (column : Column) {c : Char} (hc : isNeutral c) {cs : List Char}
    (h : '\n' ∉ cs) (rest : List Char) :
    opens column (c :: cs ++ rest) = opens .later rest := by
  rw [List.cons_append, opens, isMark_of_isNeutral column hc, next_of_isNeutral column hc,
    opens_later h, Bool.false_or]

/-- An escaped character opens a block exactly if it is a mark where it stands and was escaped as
none. -/
theorem opens_escapeIn (column own : Column) (c : Char) (rest : List Char) :
    opens column (escapeIn own c ++ rest) =
      (isMark column c && !isMark own c || opens (column.next c) rest) := by
  have hbackslash : isNeutral '\\' := by decide
  rw [escapeIn_eq]
  cases h : isMark own c with
  | true =>
    have hc : c ≠ '\n' ∧ isDecimalDigit c = false := by
      simp only [isMark, decide_eq_true_eq] at h
      rcases h with ⟨-, rfl⟩ | ⟨-, rfl⟩ <;> decide
    have hnext : column.next c = .later := by simp [Column.next, hc]
    rw [if_pos rfl, opens_neutral_cons column hbackslash (by simpa using hc.1.symm), hnext]
    simp
  | false =>
    rw [if_neg Bool.false_ne_true, escapeChar]
    split_ifs with h₁ h₂ h₃ h₄
    · have hc : isNeutral c := by rcases h₁ with rfl | rfl | rfl | rfl | rfl | rfl <;> decide
      have hline : c ≠ '\n' := by rcases h₁ with rfl | rfl | rfl | rfl | rfl | rfl <;> decide
      rw [opens_neutral_cons column hbackslash (by simpa using hline.symm),
        isMark_of_isNeutral column hc, next_of_isNeutral column hc]
      rfl
    iterate 3
      subst c
      rw [isMark_of_isNeutral column (by decide), next_of_isNeutral column (by decide)]
      exact opens_neutral_cons column (by decide) (by decide) rest
    simp [opens]

theorem escapeIn_of_isBlank (own : Column) {c : Char} (hc : isBlank c) : escapeIn own c = [c] := by
  rw [escapeIn_eq, isMark_of_isBlank own hc, if_neg Bool.false_ne_true, escapeChar]
  split_ifs with h₁ h₂ h₃ h₄
  · rcases h₁ with rfl | rfl | rfl | rfl | rfl | rfl <;> exact absurd hc (by decide)
  iterate 3 (subst c; exact absurd hc (by decide))
  rfl

theorem exists_escapeIn_eq_cons (own : Column) {c : Char} (hc : isBlank c = false) :
    ∃ d ds, escapeIn own c = d :: ds ∧ isBlank d = false := by
  rw [escapeIn_eq, escapeChar]
  split_ifs
  · exact ⟨_, _, rfl, by decide⟩
  · exact ⟨_, _, rfl, by decide⟩
  · exact ⟨_, _, rfl, by decide⟩
  · exact ⟨_, _, rfl, by decide⟩
  · exact ⟨_, _, rfl, by decide⟩
  · exact ⟨_, _, rfl, hc⟩

/-- The characters of a text, each with its column. -/
def inColumns (column : Column) : List Char → List (Column × Char)
  | [] => []
  | c :: cs => (column, c) :: inColumns (column.next c) cs

/-- Characters escaped in columns of their own. -/
def escapeAll (es : List (Column × Char)) : List Char := es.flatMap fun e => escapeIn e.1 e.2

theorem escapeFrom_eq (column : Column) (text : List Char) :
    escapeFrom column text = escapeAll (inColumns column text) := by
  induction text generalizing column with
  | nil => rfl
  | cons c text ih => rw [escapeFrom, ih, inColumns, escapeAll, escapeAll, List.flatMap_cons]

/-- Whether some character is a mark where it stands, but not in its own column. -/
def slips (column : Column) : List (Column × Char) → Bool
  | [] => false
  | (own, c) :: es => isMark column c && !isMark own c || slips (column.next c) es

/-- Nothing slips in a text by itself, where each character has the column in which it stands. -/
theorem slips_inColumns (column : Column) (text : List Char) :
    slips column (inColumns column text) = false := by
  induction text generalizing column with
  | nil => rfl
  | cons c text ih => simp [inColumns, slips, ih]

theorem opens_escapeAll (column : Column) (es : List (Column × Char)) :
    opens column (escapeAll es) = slips column es := by
  rw [escapeAll]
  induction es generalizing column with
  | nil => rfl
  | cons e es ih => rw [List.flatMap_cons, opens_escapeIn, ih, slips]

theorem dropWhile_escapeAll (es : List (Column × Char)) :
    (escapeAll es).dropWhile isBlank = escapeAll (es.dropWhile fun e => isBlank e.2) := by
  rw [escapeAll, escapeAll]
  induction es with
  | nil => rfl
  | cons e es ih =>
    rw [List.flatMap_cons, List.dropWhile_cons]
    cases hc : isBlank e.2 with
    | true => simp [escapeIn_of_isBlank e.1 hc, hc, ih]
    | false =>
      obtain ⟨d, ds, hd, hblank⟩ := exists_escapeIn_eq_cons e.1 hc
      simp [hd, hblank]

theorem slips_iff {column : Column} {es : List (Column × Char)} :
    slips column es ↔ ∃ before own c after, es = before ++ (own, c) :: after ∧
      isMark ((before.map Prod.snd).foldl Column.next column) c ∧ ¬ isMark own c := by
  induction es generalizing column with
  | nil => simp [slips]
  | cons e es ih =>
    simp only [slips, Bool.or_eq_true, Bool.and_eq_true, ih]
    constructor
    · rintro (⟨hmark, hown⟩ | ⟨before, own, c, after, rfl, hslip⟩)
      · exact ⟨[], e.1, e.2, es, rfl, hmark, by simpa using hown⟩
      · exact ⟨e :: before, own, c, after, rfl, hslip⟩
    · rintro ⟨before, own, c, after, hes, hslip⟩
      cases before with
      | nil =>
        obtain ⟨rfl, rfl⟩ := List.cons.inj hes
        exact .inl ⟨hslip.1, by simpa using hslip.2⟩
      | cons e' before =>
        obtain ⟨rfl, rfl⟩ := List.cons.inj hes
        exact .inr ⟨before, own, c, after, rfl, hslip⟩

theorem opens_finishDocument (body : List Char) :
    opens .first (finishDocument body) = opens .first body := by
  have hlines (cs : List Char) : opens .first (cs.dropWhile (· = '\n')) = opens .first cs := by
    induction cs with
    | nil => rfl
    | cons c cs ih =>
      by_cases hc : c = '\n'
      · subst hc
        exact ih
      · simp [hc]
  obtain ⟨tail, htail, hbody⟩ := finishDocument_eq body
  rw [hbody, opens_append, opens_blank _ htail, Bool.or_false, trimEnd,
    opens_dropEndWhile fun _ h => h, hlines]

theorem opens_paragraphText (inner rest : List Char) :
    opens .first (paragraphText inner ++ rest) =
      (opens .first (inner.dropWhile isBlank) || opens .first rest) := by
  have htrim : opens .first (inner.dropWhile isBlank) = opens .first (trim inner) := by
    rw [trim, trimEnd, opens_dropEndWhile fun _ h => h]
  have hlines (column : Column) : opens column ('\n' :: '\n' :: rest) = opens .first rest := by
    cases column <;> rfl
  rw [htrim, paragraphText]
  cases h : trim inner with
  | nil => rfl
  | cons c text =>
    rw [List.isEmpty_cons, if_neg Bool.false_ne_true, List.append_assoc, opens_append]
    exact congrArg _ (hlines _)

end Markdown

theorem TextRun.written_eq_escape (files : Manifest) {r : TextRun} (hurl : r.url? = none)
    (hkind : r.spanKind = .plain) (hcontent : r.content ≠ "") :
    r.written Markdown.rule files false =
      ⟨.plain, true, Markdown.escape (r.content.toList.flatMap softBreak)⟩ := by
  have hplain := writeTree_plain Markdown.rule files rfl false 0 hcontent
  have hstyle : r.style.bold = false ∧ r.style.italic = false := by
    revert hkind
    rw [spanKind]
    cases r.style.bold <;> cases r.style.italic <;> decide
  rw [written, hkind, inline, hurl, hstyle.1, hstyle.2]
  exact congrArg _ hplain

namespace Paragraph

/-- The characters of the paragraph, each with its column in its own run. -/
def columns (p : Paragraph) : List (Markdown.Column × Char) :=
  p.runs.flatMap fun r => Markdown.inColumns .first (r.content.toList.flatMap softBreak)

/-- Whether some character opens a block in its place in the trimmed paragraph, but would not in
its place in its run. -/
def Slips (p : Paragraph) : Prop :=
  ∃ before own c after, p.columns = before ++ (own, c) :: after ∧
    Markdown.isMark
      (((before.map Prod.snd).dropWhile isBlank).foldl Markdown.Column.next .first) c ∧
    ¬ Markdown.isMark own c

theorem slips_iff {p : Paragraph} :
    p.Slips ↔ Markdown.slips .first (p.columns.dropWhile fun e => isBlank e.2) := by
  have hmap (es : List (Markdown.Column × Char)) :
      (es.map Prod.snd).dropWhile isBlank = (es.dropWhile fun e => isBlank e.2).map Prod.snd :=
    List.dropWhile_map ..
  rw [Slips, Markdown.slips_iff]
  constructor
  · rintro ⟨before, own, c, after, hes, hmark, hown⟩
    have hc : isBlank c = false := by
      cases hb : isBlank c with
      | false => rfl
      | true => simp [Markdown.isMark_of_isBlank _ hb] at hmark
    refine ⟨before.dropWhile fun e => isBlank e.2, own, c, after, ?_, by rwa [← hmap], hown⟩
    rw [hes, List.dropWhile_append]
    split_ifs with hempty
    · simp [List.isEmpty_iff.1 hempty, hc]
    · rfl
  · rintro ⟨before, own, c, after, hes, hmark, hown⟩
    have hkept : (before.dropWhile fun e => isBlank e.2) = before := by
      cases before with
      | nil => rfl
      | cons e before =>
        have hfirst := List.head?_dropWhile_not (fun e => isBlank e.2) p.columns
        rw [hes, List.cons_append, List.head?_cons] at hfirst
        exact List.dropWhile_cons_of_neg (by simp [hfirst])
    refine ⟨p.columns.takeWhile (fun e => isBlank e.2) ++ before, own, c, after, ?_, ?_, hown⟩
    · rw [List.append_assoc, ← hes, List.takeWhile_append_dropWhile]
    · have hblank (e : Markdown.Column × Char)
          (he : e ∈ p.columns.takeWhile fun e => isBlank e.2) : isBlank e.2 :=
        List.all_eq_true.1 List.all_takeWhile e he
      rwa [hmap, List.dropWhile_append_of_pos hblank, hkept]

end Paragraph

namespace Document

/-- A line of the Markdown of ordinary paragraphs in plain text opens a heading or an ordered list
exactly if some character of a paragraph opens one in its place in the trimmed paragraph, but would
not in its place in its run. -/
theorem opensBlock_md {d : Document} {o : Options} (h : d.Ordinary o)
    (hplain : ∀ p ∈ d.paragraphs, ∀ r ∈ p.runs, r.spanKind = .plain) (files : Manifest) :
    ∃ out : String, (Converter.mk "md" o).convert d files = .ok out ∧
      ((∃ line ∈ out.toList.splitOn '\n', Markdown.opensBlock line) ↔
        ∃ p ∈ d.paragraphs, p.Slips) := by
  have hget : Registry.standard.get "md" = .ok ⟨"md", fun k => some (Markdown.rule k)⟩ := rfl
  have hwritten : ∀ p ∈ d.paragraphs,
      joinRendered none none (p.runs.map (TextRun.written Markdown.rule files false)) =
        Markdown.escapeAll p.columns := by
    intro p hp
    have hmap : p.runs.map (TextRun.written Markdown.rule files false) = p.runs.map fun r =>
        ⟨.plain, true, Markdown.escape (r.content.toList.flatMap softBreak)⟩ := by
      refine List.map_congr_left fun r hr => TextRun.written_eq_escape files
        ((h.of_mem_paragraphs p hp).url?_eq r hr) (hplain p hp r hr) ?_
      simpa using (List.mem_filter.1 hr).2
    rw [hmap, joinRendered_of_kind (k := .plain) (by simp) none (by simp), List.flatMap_map,
      Paragraph.columns, Markdown.escapeAll, List.flatMap_assoc]
    exact List.flatMap_congr fun r _ => Markdown.escapeFrom_eq _ _
  have hout := Converter.convert_ordinary (c := ⟨"md", o⟩) files rfl rfl hget rfl h
  rw [List.flatMap_congr fun p hp => congrArg paragraphText (hwritten p hp)] at hout
  refine ⟨_, hout, ?_⟩
  rw [← Markdown.opens_first_iff, String.toList_ofList, Markdown.opens_finishDocument]
  induction d.paragraphs with
  | nil => simp [Markdown.opens]
  | cons p ps ih =>
    rw [List.flatMap_cons, Markdown.opens_paragraphText, Markdown.dropWhile_escapeAll,
      Markdown.opens_escapeAll, Bool.or_eq_true, ih]
    simp [Paragraph.slips_iff]

/-- Marks at the starts of lines, and marks that are none in their lines. -/
def marked : Document :=
  (({} : Document).addParagraph (.ofText "# a\x0b12. b"))
    |>.addParagraph ((Paragraph.ofText " x 1").addRun (.ofText ". #"))

theorem opensBlock_md_marked :
    ∃ out : String, (Converter.mk "md" {}).convert marked .empty = .ok out ∧
      ¬ ∃ line ∈ out.toList.splitOn '\n', Markdown.opensBlock line := by
  have hordinary : marked.Ordinary {} :=
    ((ordinary_empty {}).addParagraph ((Paragraph.ordinary_empty {}).addRun rfl (by decide)))
      |>.addParagraph
        (((Paragraph.ordinary_empty {}).addRun rfl (by decide)).addRun rfl (by decide))
  have hruns : marked.paragraphs.map Paragraph.runs =
      [[.ofText "# a\x0b12. b"], [.ofText " x 1", .ofText ". #"]] :=
    congrArg₂ (fun rs ss => [rs, ss]) (Paragraph.runs_eq_of_pairwise (by decide))
      (Paragraph.runs_eq_of_pairwise (by decide))
  have hplain : ∀ rs ∈ marked.paragraphs.map Paragraph.runs, ∀ r ∈ rs, r.spanKind = .plain := by
    rw [hruns]
    decide
  have hslips : ∀ rs ∈ marked.paragraphs.map Paragraph.runs,
      Markdown.slips .first ((rs.flatMap fun r => Markdown.inColumns .first
        (r.content.toList.flatMap softBreak)).dropWhile fun e => isBlank e.2) = false := by
    rw [hruns]
    decide
  obtain ⟨out, hout, hiff⟩ := opensBlock_md hordinary
    (fun p hp => hplain p.runs (List.mem_map_of_mem hp)) .empty
  refine ⟨out, hout, hiff.not.2 ?_⟩
  rintro ⟨p, hp, hslip⟩
  rw [Paragraph.slips_iff, Paragraph.columns, hslips p.runs (List.mem_map_of_mem hp)] at hslip
  exact Bool.false_ne_true hslip

/-- A sharp behind a blank that is trimmed, and a point behind digits in a run of their own. -/
def slipping : Document :=
  (({} : Document).addParagraph (.ofText " # hi"))
    |>.addParagraph ((Paragraph.ofText "1").addRun (.ofText ". x"))

/-- Text can open a heading, and it can open an ordered list. -/
theorem opensBlock_slipping :
    slipping.Ordinary {} ∧ (∀ p ∈ slipping.paragraphs, ∀ r ∈ p.runs, r.spanKind = .plain) ∧
      (Converter.mk "md" {}).convert slipping .empty = .ok "# hi\n\n1. x\n" ∧
        ∃ line ∈ "# hi\n\n1. x\n".toList.splitOn '\n', Markdown.opensBlock line := by
  have hordinary : slipping.Ordinary {} :=
    ((ordinary_empty {}).addParagraph ((Paragraph.ordinary_empty {}).addRun rfl (by decide)))
      |>.addParagraph
        (((Paragraph.ordinary_empty {}).addRun rfl (by decide)).addRun rfl (by decide))
  have hruns : slipping.paragraphs.map Paragraph.runs =
      [[.ofText " # hi"], [.ofText "1", .ofText ". x"]] :=
    congrArg₂ (fun rs ss => [rs, ss]) (Paragraph.runs_eq_of_pairwise (by decide))
      (Paragraph.runs_eq_of_pairwise (by decide))
  have hplain : ∀ rs ∈ slipping.paragraphs.map Paragraph.runs, ∀ r ∈ rs, r.spanKind = .plain := by
    rw [hruns]
    decide
  have hget : Registry.standard.get "md" = .ok ⟨"md", fun k => some (Markdown.rule k)⟩ := rfl
  refine ⟨hordinary, fun p hp => hplain p.runs (List.mem_map_of_mem hp), ?_, ?_⟩
  · have hout := Converter.convert_ordinary (c := ⟨"md", {}⟩) .empty rfl rfl hget rfl hordinary
    rw [← List.flatMap_map (f := Paragraph.runs) (g := fun rs => paragraphText
        (joinRendered none none (rs.map (TextRun.written Markdown.rule .empty false)))),
      hruns] at hout
    rw [hout]
    decide
  · exact ⟨"# hi".toList, by decide, by decide⟩

end Document

end RichText
