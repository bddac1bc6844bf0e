import RichText.Proofs.Render.Ordinary
import RichText.Proofs.Text.Gaps

/-!
Words in the plain text of a paragraph. Every span is trimmed by itself, and a space is put only
between siblings of different kinds. So the blanks between two words are lost exactly if all of them
are in spans and the second word begins a run right behind a run of the same kind.
-/
namespace RichText

theorem nonblanks_pad (last : Option Char) (previous : Option Kind) (r : Rendered) :
    nonblanks (r.pad last previous) = [] := by
  unfold Rendered.pad
  split_ifs <;> decide

theorem nonblanks_joinRendered (last : Option Char) (previous : Option Kind)
    (rs : List Rendered) :
    nonblanks (joinRendered last previous rs) = nonblanks (rs.flatMap Rendered.text) := by
  induction rs generalizing last previous with
  | nil => rfl
  | cons r rs ih =>
    rw [joinRendered_cons, nonblanks_append, nonblanks_pad, nonblanks_append, ih]
    simp

namespace TextRun

/-- The run in the plain text: text that is not in a span keeps its blanks. -/
def shown (r : TextRun) : List Char :=
  if r.spanKind = .plain then r.content.toList.flatMap softBreak
  else trim (r.content.toList.flatMap softBreak)

/-- The run without its blanks, if it is in a span. -/
def outside (r : TextRun) : List Char :=
  if r.spanKind = .plain then r.content.toList else nonblanks r.content.toList

/-- The texts of runs, one after the other. -/
def textOf (rs : List TextRun) : List Char := rs.flatMap fun r => r.content.toList

/-- The places where words begin in a run right behind a run of the same kind. -/
def joints (previous : Option Kind) (n : Nat) : List TextRun → List Nat
  | [] => []
  | r :: rs =>
    let words := nonblanks r.content.toList
    (if previous = some r.spanKind ∧ words ≠ [] then [n] else []) ++
      joints (some r.spanKind) (n + words.length) rs

/-- The runs in the plain text of a paragraph. -/
def joined (rs : List TextRun) : List Char :=
  joinRendered none none (rs.map fun r => ⟨r.spanKind, true, r.shown⟩)

theorem writeTree_span (files : Manifest) {k : Kind} (hk : PlainText.rule k = Rule.span)
    (nested : Bool) (id : Nat) (t : Tree) :
    writeTree PlainText.rule files nested false (.node id { kind := k } [t]) =
      trim (writeTree PlainText.rule files (t.kind = k) false t) := by
  have hpad (r : Rendered) : joinRendered none none [r] = r.text := by simp [joinRendered]
  have hfinish (text : List Char) : Rule.span.finish nested { kind := k } text = trim text := by
    cases h : trim text <;> simp [Rule.finish_eq, Rule.around, Rule.inside, Rule.span, h]
  have hliteral : Rule.span.literal false "" = [] := rfl
  have hraw : Rule.span.raw = false := rfl
  simp [writeTree, writeAll, hk, hraw, hliteral, hpad, hfinish]

theorem written_eq (files : Manifest) {r : TextRun} (hurl : r.url? = none)
    (hcontent : r.content ≠ "") :
    r.written PlainText.rule files false = ⟨r.spanKind, true, r.shown⟩ := by
  have hplain (nested : Bool) (id : Nat) :=
    writeTree_plain PlainText.rule files rfl nested id hcontent
  have hbold := writeTree_span files (k := .bold) rfl
  have hitalic := writeTree_span files (k := .italic) rfl
  have hpad (k : Kind) (hk : k = .plain ∨ k = .bold ∨ k = .italic) :
      (PlainText.rule k).leftPad = true := by
    rcases hk with rfl | rfl | rfl <;> rfl
  rw [written, shown, inline, spanKind, hurl]
  cases r.style.bold <;> cases r.style.italic <;>
    simp [Inline.tree, Inline.spans, Tree.chain, hplain, hbold, hitalic, hpad, trim_trim]

variable {k n : Nat}

theorem nonblanks_shown (r : TextRun) : nonblanks r.shown = nonblanks r.content.toList := by
  rw [shown]
  split_ifs
  · exact nonblanks_flatMap_softBreak _
  · rw [nonblanks_trim, nonblanks_flatMap_softBreak]

theorem nonblanks_outside (r : TextRun) : nonblanks r.outside = nonblanks r.content.toList := by
  rw [outside]
  split_ifs
  · rfl
  · simp [nonblanks]

/-- Blanks within the text of a run are kept. -/
theorem mem_gaps_shown {r : TextRun} (hk : k < n)
    (hn : n < k + (nonblanks r.content.toList).length) :
    n ∈ gaps k r.shown ↔ n ∈ gaps k r.content.toList := by
  rw [shown]
  split_ifs
  · exact mem_gaps_flatMap_softBreak
  · rw [mem_gaps_trim hk (by rwa [nonblanks_flatMap_softBreak]), mem_gaps_flatMap_softBreak]

/-- Blanks at the ends of the text of a run are kept outside the spans. -/
theorem mem_gaps_shown_of_end {r : TextRun}
    (hn : n = k ∨ n = k + (nonblanks r.content.toList).length) :
    n ∈ gaps k r.shown ↔ n ∈ gaps k r.outside := by
  rw [shown, outside]
  split_ifs
  · exact mem_gaps_flatMap_softBreak
  · rw [gaps_nonblanks, iff_false_intro List.not_mem_nil, iff_false]
    rcases hn with rfl | rfl
    · exact not_mem_gaps_trim_start
    · rw [← nonblanks_flatMap_softBreak]
      exact not_mem_gaps_trim_end

theorem length_nonblanks_textOf_concat (rs : List TextRun) (r : TextRun) :
    (nonblanks (textOf (rs ++ [r]))).length =
      (nonblanks (textOf rs)).length + (nonblanks r.content.toList).length := by
  simp [textOf]

theorem nonblanks_joined (rs : List TextRun) : nonblanks (joined rs) = nonblanks (textOf rs) := by
  rw [joined, nonblanks_joinRendered, textOf]
  induction rs with
  | nil => rfl
  | cons r rs ih => simp [ih, nonblanks_shown]

theorem nonblanks_flatMap_outside (rs : List TextRun) :
    nonblanks (rs.flatMap outside) = nonblanks (textOf rs) := by
  rw [textOf]
  induction rs with
  | nil => rfl
  | cons r rs ih => simp [ih, nonblanks_outside]

/-- The space in front of a run behind other runs. -/
def padAfter (rs : List TextRun) (r : TextRun) : List Char :=
  Rendered.pad (joined rs).getLast? (rs.getLast?.map spanKind) ⟨r.spanKind, true, r.shown⟩

theorem nonblanks_padAfter (rs : List TextRun) (r : TextRun) : nonblanks (padAfter rs r) = [] :=
  nonblanks_pad _ _ _

theorem joined_concat (rs : List TextRun) (r : TextRun) :
    joined (rs ++ [r]) = joined rs ++ (padAfter rs r ++ r.shown) := by
  have hkind : (Rendered.kind ∘ fun r : TextRun => ⟨r.spanKind, true, r.shown⟩) = spanKind := rfl
  rw [joined, List.map_append, joinRendered_append, joined, padAfter, joined]
  simp [joinRendered_cons, joinRendered, List.getLast?_map, hkind]

theorem exists_joined_append (rs ss : List TextRun) :
    ∃ rest, joined (rs ++ ss) = joined rs ++ rest := by
  rw [joined, List.map_append, joinRendered_append]
  exact ⟨_, rfl⟩

theorem mem_gaps_padAfter {rs : List TextRun} {r : TextRun} :
    n ∈ gaps k (padAfter rs r) ↔ n = k ∧ (∃ q ∈ rs.getLast?, q.spanKind ≠ r.spanKind) ∧
      (nonblanks (textOf rs) ≠ [] ∧ (nonblanks (textOf rs)).length ∉ gaps 0 (joined rs)) ∧
      nonblanks r.content.toList ≠ [] ∧ k ∉ gaps k r.outside := by
  have hlast := getLast?_any_iff 0 (joined rs)
  have hfirst := head?_any_iff k r.shown
  rw [nonblanks_joined, Nat.zero_add] at hlast
  rw [nonblanks_shown, mem_gaps_shown_of_end (.inl rfl)] at hfirst
  have hspace (b : Bool) : n ∈ gaps k (if b then [' '] else []) ↔ n = k ∧ b := by
    have hblank : isBlank ' ' := by decide
    cases b <;> simp [gaps, hblank]
  rw [← hlast, ← hfirst, padAfter, Rendered.pad, hspace]
  cases rs.getLast? <;> simp [wordsMeet]

/-- Behind the words of the runs, blanks are kept outside the spans. -/
theorem mem_gaps_joined_end (rs : List TextRun) :
    (nonblanks (textOf rs)).length ∈ gaps 0 (joined rs) ↔
      (nonblanks (textOf rs)).length ∈ gaps 0 (rs.flatMap outside) := by
  induction rs using List.reverseRecOn with
  | nil => rfl
  | append_singleton rs r ih =>
    rw [joined_concat, List.flatMap_append, mem_gaps_append, mem_gaps_append, mem_gaps_append,
      nonblanks_joined, nonblanks_flatMap_outside, nonblanks_padAfter, mem_gaps_padAfter,
      length_nonblanks_textOf_concat]
    simp only [List.length_nil, Nat.add_zero, Nat.zero_add, List.flatMap_singleton]
    rw [mem_gaps_shown_of_end (.inr rfl)]
    by_cases hr : nonblanks r.content.toList = []
    · simp [hr, ih]
    · have hpos : 0 < (nonblanks r.content.toList).length := List.length_pos_iff.2 hr
      have hjoined : (nonblanks (textOf rs)).length + (nonblanks r.content.toList).length ∉
          gaps 0 (joined rs) := not_mem_gaps_of_gt (by rw [nonblanks_joined]; omega)
      have houtside : (nonblanks (textOf rs)).length + (nonblanks r.content.toList).length ∉
          gaps 0 (rs.flatMap outside) :=
        not_mem_gaps_of_gt (by rw [nonblanks_flatMap_outside]; omega)
      simp [hjoined, houtside, hr]

theorem joints_append (previous : Option Kind) (k : Nat) (rs ss : List TextRun) :
    joints previous k (rs ++ ss) = joints previous k rs ++
      joints ((rs.getLast?.map spanKind).or previous) (k + (nonblanks (textOf rs)).length) ss := by
  induction rs generalizing previous k with
  | nil => rfl
  | cons r rs ih =>
    have hprevious : ((r :: rs).getLast?.map spanKind).or previous =
        (rs.getLast?.map spanKind).or (some r.spanKind) := by
      rw [List.getLast?_cons]
      cases rs.getLast? <;> rfl
    rw [hprevious, List.cons_append, joints, ih, joints, List.append_assoc]
    simp [textOf, Nat.add_assoc]

theorem bounds_of_mem_joints {previous : Option Kind} {rs : List TextRun}
    (h : n ∈ joints previous k rs) : k ≤ n ∧ n < k + (nonblanks (textOf rs)).length := by
  induction rs generalizing previous k with
  | nil => simp [joints] at h
  | cons r rs ih =>
    have hlength : (nonblanks (textOf (r :: rs))).length =
        (nonblanks r.content.toList).length + (nonblanks (textOf rs)).length := by simp [textOf]
    rw [hlength]
    rcases List.mem_append.1 h with h | h
    · split_ifs at h with hc
      · have hpos := List.length_pos_iff.2 hc.2
        rw [List.mem_singleton.1 h]
        omega
      · simp at h
    · have := ih h
      omega

/-- The run that holds a character other than a blank. -/
theorem exists_run {rs : List TextRun} (hn : n < (nonblanks (textOf rs)).length) :
    ∃ before r after, rs = before ++ r :: after ∧ (nonblanks (textOf before)).length ≤ n ∧
      n < (nonblanks (textOf before)).length + (nonblanks r.content.toList).length := by
  induction rs using List.reverseRecOn with
  | nil => simp [textOf] at hn
  | append_singleton rs r ih =>
    by_cases h : n < (nonblanks (textOf rs)).length
    · obtain ⟨before, s, after, rfl, hbounds⟩ := ih h
      exact ⟨before, s, after ++ [r], by simp, hbounds⟩
    · rw [length_nonblanks_textOf_concat] at hn
      exact ⟨rs, r, [], rfl, by omega, hn⟩

section
variable {before after : List TextRun} {r : TextRun}
  (hn : n < (nonblanks (textOf before)).length + (nonblanks r.content.toList).length)
include hn

theorem mem_joints_iff (hk : (nonblanks (textOf before)).length ≤ n) :
    n ∈ joints none 0 (before ++ r :: after) ↔ n = (nonblanks (textOf before)).length ∧
      ∃ q ∈ before.getLast?, q.spanKind = r.spanKind := by
  have hbefore : n ∉ joints none 0 before :=
    fun h => absurd (bounds_of_mem_joints h).2 (by omega)
  have hafter (previous : Option Kind) : n ∉ joints previous
      ((nonblanks (textOf before)).length + (nonblanks r.content.toList).length) after :=
    fun h => absurd (bounds_of_mem_joints h).1 (by omega)
  have hwords : n = (nonblanks (textOf before)).length → nonblanks r.content.toList ≠ [] := by
    rintro rfl
    exact List.length_pos_iff.1 (by omega)
  rw [joints_append, List.mem_append, or_iff_right hbefore, Nat.zero_add, joints, List.mem_append,
    or_iff_left (hafter _)]
  cases before.getLast? with
  | none => simp
  | some q => by_cases hq : q.spanKind = r.spanKind <;> simp [hq]; exact hwords

/-- Up to a run, only what is written for the runs up to it matters. -/
theorem mem_gaps_joined_iff : n ∈ gaps 0 (joined (before ++ r :: after)) ↔
    n ∈ gaps 0 (joined before) ∨
      n ∈ gaps (nonblanks (textOf before)).length (padAfter before r) ∨
        n ∈ gaps (nonblanks (textOf before)).length r.shown := by
  obtain ⟨rest, hrest⟩ := exists_joined_append (before ++ [r]) after
  rw [List.append_assoc, List.singleton_append] at hrest
  have hinside : n < 0 + (nonblanks (joined (before ++ [r]))).length := by
    rwa [nonblanks_joined, length_nonblanks_textOf_concat, Nat.zero_add]
  rw [hrest, mem_gaps_append_left hinside, joined_concat, mem_gaps_append, mem_gaps_append,
    nonblanks_joined, nonblanks_padAfter, Nat.zero_add]
  rfl

theorem mem_gaps_textOf_iff (hk : (nonblanks (textOf before)).length < n) :
    n ∈ gaps 0 (textOf (before ++ r :: after)) ↔
      n ∈ gaps (nonblanks (textOf before)).length r.content.toList := by
  have hsplit : textOf (before ++ r :: after) =
      textOf before ++ (r.content.toList ++ textOf after) := by simp [textOf]
  rw [hsplit, mem_gaps_append_right (by simpa using hk), Nat.zero_add, mem_gaps_append_left hn]

end

/-- In front of a run that begins with words, a space replaces the blanks that are lost unless the
run before it is of the same kind. -/
theorem mem_gaps_joined_of_run {before after : List TextRun} {r : TextRun}
    (hwords : nonblanks (textOf before) ≠ []) (hr : nonblanks r.content.toList ≠ []) :
    (nonblanks (textOf before)).length ∈ gaps 0 (joined (before ++ r :: after)) ↔
      (nonblanks (textOf before)).length ∈ gaps 0 ((before ++ r :: after).flatMap outside) ∨
        ∃ q ∈ before.getLast?, q.spanKind ≠ r.spanKind := by
  have hlt : (nonblanks (textOf before)).length <
      (nonblanks (textOf before)).length + (nonblanks r.content.toList).length := by
    have := List.length_pos_iff.2 hr
    omega
  have houtside : (nonblanks (textOf before)).length ∈
        gaps 0 ((before ++ r :: after).flatMap outside) ↔
      (nonblanks (textOf before)).length ∈ gaps 0 (before.flatMap outside) ∨
        (nonblanks (textOf before)).length ∈
          gaps (nonblanks (textOf before)).length r.outside := by
    rw [List.flatMap_append, List.flatMap_cons, mem_gaps_append, nonblanks_flatMap_outside,
      Nat.zero_add, mem_gaps_append_left (by rwa [nonblanks_outside])]
  rw [mem_gaps_joined_iff hlt, mem_gaps_padAfter, mem_gaps_shown_of_end (.inl rfl),
    mem_gaps_joined_end, houtside]
  by_cases hbefore : (nonblanks (textOf before)).length ∈ gaps 0 (before.flatMap outside)
  · simp only [hbefore, true_or]
  · simp only [hbefore, hwords, hr, false_or, not_false_iff, true_and, ne_eq]
    by_cases hafter : (nonblanks (textOf before)).length ∈
        gaps (nonblanks (textOf before)).length r.outside
    · simp only [hafter, true_or, or_true]
    · simp only [hafter, not_false_iff, and_true, or_false, false_or]

/-- Two words are parted in the plain text unless the second one begins a run right behind a run of
the same kind and all blanks between them are in spans. -/
theorem mem_gaps_joined {rs : List TextRun} (hpos : 0 < n)
    (hn : n < (nonblanks (textOf rs)).length) (hgap : n ∈ gaps 0 (textOf rs)) :
    n ∈ gaps 0 (joined rs) ↔ ¬ (n ∈ joints none 0 rs ∧ n ∉ gaps 0 (rs.flatMap outside)) := by
  obtain ⟨before, r, after, rfl, hk, hr⟩ := exists_run hn
  rw [mem_joints_iff hr hk]
  rcases Nat.lt_or_eq_of_le hk with hlt | rfl
  · rw [mem_gaps_textOf_iff hr hlt] at hgap
    have hshown := (mem_gaps_shown hlt hr).2 hgap
    simp [mem_gaps_joined_iff hr, hshown, Nat.ne_of_gt hlt]
  · have hwords : nonblanks (textOf before) ≠ [] := List.length_pos_iff.1 hpos
    obtain ⟨q, hq⟩ : ∃ q, before.getLast? = some q := by
      cases h : before.getLast? with
      | none => simp [List.getLast?_eq_none_iff.1 h, textOf] at hwords
      | some q => exact ⟨q, rfl⟩
    rw [mem_gaps_joined_of_run hwords (List.length_pos_iff.1 (by omega))]
    simp [hq, or_iff_not_imp_left, imp_not_comm]

end TextRun

theorem nonblanks_paragraphText (inner : List Char) :
    nonblanks (paragraphText inner) = nonblanks inner := by
  have hlines : nonblanks ['\n', '\n'] = [] := by decide
  rw [paragraphText]
  split_ifs with h
  · rw [List.isEmpty_iff, trim_eq_nil_iff] at h
    rw [h, nonblanks_nil]
  · rw [nonblanks_append, hlines, List.append_nil, nonblanks_trim]

theorem isGap_paragraphText {inner : List Char} {n : Nat} :
    IsGap (paragraphText inner) n ↔ IsGap inner n := by
  have hlines : nonblanks ['\n', '\n'] = [] := by decide
  have htrim : IsGap (trim inner) n ↔ IsGap inner n := isGap_trim
  rw [paragraphText, ← htrim]
  split_ifs with h
  · rw [List.isEmpty_iff.1 h]
  · exact isGap_append hlines

/-- Where the `n`th character that is not blank and the next one meet: the next one begins the words
of a run right behind a run of the same kind, and no blank between the two is outside the spans. -/
def Paragraph.Fuses (p : Paragraph) (n : Nat) : Prop :=
  n ∈ TextRun.joints none 0 p.runs ∧ n ∉ gaps 0 (p.runs.flatMap TextRun.outside)

instance (p : Paragraph) (n : Nat) : Decidable (p.Fuses n) :=
  inferInstanceAs (Decidable (_ ∧ _))

namespace Document

/-- Two words of an ordinary paragraph are written as two words in the plain text, unless the second
one begins a run right behind a run in the same kind of span and all blanks between them are in
spans. Then they are written as one. -/
theorem isGap_txt {d : Document} {o : Options} (h : d.Ordinary o) {p : Paragraph}
    (hp : d.paragraphs = [p]) (files : Manifest) :
    ∃ out : String, (Converter.mk "txt" o).convert d files = .ok out ∧
      nonblanks out.toList = nonblanks p.sortedText.toList ∧
      ∀ n, IsGap p.sortedText.toList n → (IsGap out.toList n ↔ ¬ p.Fuses n) := by
  have hget : Registry.standard.get "txt" = .ok ⟨"txt", fun k => some (PlainText.rule k)⟩ := rfl
  have hurl := (h.of_mem_paragraphs p (by simp [hp])).url?_eq
  have hwritten : p.runs.map (TextRun.written PlainText.rule files false) =
      p.runs.map fun r => ⟨r.spanKind, true, r.shown⟩ := by
    refine List.map_congr_left fun r hr => TextRun.written_eq files (hurl r hr) ?_
    simpa using (List.mem_filter.1 hr).2
  have hout := Converter.convert_ordinary (c := ⟨"txt", o⟩) files rfl rfl hget rfl h
  rw [hp, List.flatMap_singleton, hwritten] at hout
  refine ⟨_, hout, ?_, fun n hn => ?_⟩
  · rw [String.toList_ofList, nonblanks_finishDocument, nonblanks_paragraphText]
    exact (TextRun.nonblanks_joined p.runs).trans (congrArg nonblanks p.flatMap_runs)
  · rw [String.toList_ofList, isGap_finishDocument, isGap_paragraphText]
    rw [← p.flatMap_runs] at hn
    obtain ⟨hpos, hlt, hgap⟩ := hn
    rw [Paragraph.Fuses, ← TextRun.mem_gaps_joined hpos hlt hgap]
    have hlength : n < (nonblanks (TextRun.joined p.runs)).length := by
      rwa [TextRun.nonblanks_joined]
    exact ⟨fun h => h.2.2, fun h => ⟨hpos, hlength, h⟩⟩

end Document

/-- Three spans: bold, bold and italic, italic. -/
def Paragraph.spans : Paragraph :=
  ((({} : Paragraph).addRun (.withBold (.ofText "a ")))
    |>.addRun (.withItalic (.withBold (.ofText "b ")))).addRun (.withItalic (.ofText "c d"))

theorem Paragraph.runs_spans : spans.runs = [.withBold (.ofText "a "),
    .withItalic (.withBold (.ofText "b ")), .withItalic (.ofText "c d")] :=
  runs_eq_of_pairwise (by decide)

theorem Paragraph.text_spans : spans.sortedText.toList = "a b c d".toList := by
  rw [← flatMap_runs, runs_spans]
  decide

namespace Document

def spans : Document := ({} : Document).addParagraph .spans

theorem ordinary_spans : spans.Ordinary {} :=
  (ordinary_empty {}).addParagraph ((((Paragraph.ordinary_empty {}).addRun rfl (by decide)).addRun
    rfl (by decide)).addRun rfl (by decide))

theorem isGap_txt_spans :
    ∃ out : String, (Converter.mk "txt" {}).convert spans .empty = .ok out ∧
      nonblanks out.toList = "abcd".toList ∧
      ¬ IsGap out.toList 1 ∧ IsGap out.toList 2 ∧ IsGap out.toList 3 := by
  obtain ⟨out, hout, hsame, hgaps⟩ := isGap_txt ordinary_spans (p := .spans) rfl .empty
  rw [Paragraph.text_spans] at hsame hgaps
  refine ⟨out, hout, hsame, ?_, ?_, ?_⟩
  · rw [hgaps 1 (by decide), Paragraph.Fuses, Paragraph.runs_spans]
    decide
  · rw [hgaps 2 (by decide), Paragraph.Fuses, Paragraph.runs_spans]
    decide
  · rw [hgaps 3 (by decide), Paragraph.Fuses, Paragraph.runs_spans]
    decide

/-- Two words can be written as one. -/
theorem spans_fused :
    spans.Ordinary {} ∧ spans.paragraphs = [.spans] ∧
      (Converter.mk "txt" {}).convert spans .empty = .ok "ab c d\n" ∧
      IsGap Paragraph.spans.sortedText.toList 1 ∧ ¬ IsGap "ab c d\n".toList 1 := by
  have hget : Registry.standard.get "txt" = .ok ⟨"txt", fun k => some (PlainText.rule k)⟩ := rfl
  have hparagraphs : spans.paragraphs = [.spans] := rfl
  refine ⟨ordinary_spans, hparagraphs, ?_, ?_, by decide⟩
  · have hout :=
      Converter.convert_ordinary (c := ⟨"txt", {}⟩) .empty rfl rfl hget rfl ordinary_spans
    rw [hout, hparagraphs, List.flatMap_singleton, Paragraph.runs_spans]
    decide
  · rw [Paragraph.text_spans]
    decide

end Document

end RichText
