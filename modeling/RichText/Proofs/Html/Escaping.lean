import RichText.Proofs.Html.Markup
import RichText.Proofs.Lists

/-!
Escaped text of HTML. Each character is written by itself, as its entity or as it is, so a text is
escaped part by part. A text is escaped exactly if no character of markup stands in it but
ampersands that begin entities, and what a reader of entities makes of it is the one text that it
is written for. Blanks are written as they are and no entity begins or ends with one, so a text may
be trimmed before or after.
-/
namespace RichText.Html

/-- No character of markup stands in the text but ampersands that begin entities. -/
structure Escaped (html : List Char) : Prop where
  lt : '<' ∉ html
  gt : '>' ∉ html
  quote : '"' ∉ html
  apostrophe : '\'' ∉ html
  ampersand : ∀ before after, html = before ++ '&' :: after →
    ∃ e ∈ entities, e.1 <+: '&' :: after

/-! ### What is written for a character -/

section
variable {c d : Char} {e : List Char}

theorem entity_escapeChar (h : c ∈ marks) : (escapeChar c, c) ∈ entities := by
  simp only [marks, List.mem_cons, List.not_mem_nil, or_false] at h
  obtain rfl | rfl | rfl | rfl | rfl := h <;> decide

theorem escapeChar_of_not_mem_marks (h : c ∉ marks) : escapeChar c = [c] := by
  simp only [marks, List.mem_cons, List.not_mem_nil, or_false, not_or] at h
  simp [escapeChar, h]

theorem escapeChar_of_entity (h : (e, c) ∈ entities) : escapeChar c = e := by
  have hall : ∀ x ∈ entities, escapeChar x.2 = x.1 := by decide
  exact hall _ h

theorem escapeChar_ne_nil (c : Char) : escapeChar c ≠ [] := by
  unfold escapeChar
  split_ifs <;> simp

theorem not_mem_marks_of_isBlank (h : isBlank c) : c ∉ marks := by
  have hall : ∀ x ∈ entities, isBlank x.2 = false := by decide
  intro hc
  simp [hall _ (entity_escapeChar hc)] at h

/-- A character of markup stands in what is written for another only where an entity begins. -/
theorem entity_of_mark {lead tail : List Char} (h : escapeChar c = lead ++ d :: tail)
    (hd : d ∈ marks) : lead = [] ∧ (d :: tail, c) ∈ entities := by
  by_cases hc : c ∈ marks
  · have hentity := entity_escapeChar hc
    cases lead with
    | nil =>
      rw [h] at hentity
      exact ⟨rfl, hentity⟩
    | cons b lead =>
      have hall : ∀ x ∈ entities, x.1.tail.all (· ∉ marks) := by decide
      have hrest : d ∈ (escapeChar c).tail := by simp [h]
      have hnot := List.all_eq_true.1 (hall _ hentity) d hrest
      exact absurd hd (of_decide_eq_true hnot)
  · rw [escapeChar_of_not_mem_marks hc] at h
    have hmem : d ∈ [c] := by simp [h]
    rw [List.mem_singleton.1 hmem] at hd
    exact absurd hd hc

theorem decodeEntities_escapeChar (c : Char) (rest : List Char) :
    decodeEntities (escapeChar c ++ rest) = c :: decodeEntities rest := by
  by_cases hc : c ∈ marks
  · exact decodeEntities_entity (entity_escapeChar hc) rest
  · rw [escapeChar_of_not_mem_marks hc]
    apply decodeEntities_cons
    rintro rfl
    exact hc (by decide)

theorem markup_escapeChar (c : Char) : Markup (escapeChar c) [c] := by
  by_cases hc : c ∈ marks
  · exact .entity (entity_escapeChar hc)
  · rw [escapeChar_of_not_mem_marks hc]
    exact .char hc

end

/-! ### What is written for a text -/

section
variable {text html : List Char}

theorem escape_append (as bs : List Char) : escape (as ++ bs) = escape as ++ escape bs :=
  List.flatMap_append

theorem markup_escape (text : List Char) : Markup (escape text) text := by
  induction text with
  | nil => exact .nil
  | cons c cs ih => exact (markup_escapeChar c).append ih

theorem decodeEntities_escape (text : List Char) : decodeEntities (escape text) = text := by
  induction text with
  | nil => rfl
  | cons c text ih =>
    have hstep := decodeEntities_escapeChar c (escape text)
    rw [ih] at hstep
    exact hstep

/-- A character of markup in escaped text begins an entity, wherever it stands. -/
theorem exists_entity_of_mark {before after : List Char} {c : Char}
    (h : escape text = before ++ c :: after) (hc : c ∈ marks) :
    c = '&' ∧ ∃ e ∈ entities, e.1 <+: c :: after := by
  obtain ⟨-, d, -, lead, tail, -, hd, -, rfl⟩ := exists_of_flatMap_eq h
  obtain ⟨-, hentity⟩ := entity_of_mark hd hc
  obtain ⟨rest, hrest⟩ := eq_cons_of_entity hentity
  refine ⟨(List.cons.inj hrest).1, _, hentity, ?_⟩
  exact List.cons_prefix_cons.2 ⟨rfl, List.prefix_append _ _⟩

theorem not_mem_escape {c : Char} (hc : c ∈ marks) (hne : c ≠ '&') (text : List Char) :
    c ∉ escape text := by
  intro hmem
  obtain ⟨before, after, h⟩ := List.append_of_mem hmem
  exact hne (exists_entity_of_mark h hc).1

theorem escaped_escape (text : List Char) : Escaped (escape text) where
  lt := not_mem_escape (by decide) (by decide) text
  gt := not_mem_escape (by decide) (by decide) text
  quote := not_mem_escape (by decide) (by decide) text
  apostrophe := not_mem_escape (by decide) (by decide) text
  ampersand _ _ h := (exists_entity_of_mark h (by decide)).2

/-- Escaped text is an attribute value. -/
theorem isValue_escape (text : List Char) : IsValue (escape text) :=
  have h := escaped_escape text
  ⟨h.quote, h.lt, h.gt⟩

namespace Escaped

/-- What stands behind the start of an escaped text is escaped. -/
theorem of_append {lead : List Char} (h : Escaped (lead ++ html)) : Escaped html where
  lt hc := h.lt (List.mem_append_right lead hc)
  gt hc := h.gt (List.mem_append_right lead hc)
  quote hc := h.quote (List.mem_append_right lead hc)
  apostrophe hc := h.apostrophe (List.mem_append_right lead hc)
  ampersand before after heq := h.ampersand (lead ++ before) after (by simp [heq])

theorem eq_ampersand (h : Escaped html) {c : Char} (hc : c ∈ html) (hmark : c ∈ marks) :
    c = '&' := by
  simp only [marks, List.mem_cons, List.not_mem_nil, or_false] at hmark
  obtain rfl | rfl | rfl | rfl | rfl := hmark
  · rfl
  · exact absurd hc h.lt
  · exact absurd hc h.gt
  · exact absurd hc h.quote
  · exact absurd hc h.apostrophe

/-- An escaped text begins with what is written for some character. -/
theorem exists_escapeChar {c : Char} {cs : List Char} (h : Escaped (c :: cs)) :
    ∃ d rest, c :: cs = escapeChar d ++ rest := by
  by_cases hc : c ∈ marks
  · obtain rfl := h.eq_ampersand List.mem_cons_self hc
    obtain ⟨⟨e, d⟩, hentity, rest, hrest⟩ := h.ampersand [] cs rfl
    refine ⟨d, rest, ?_⟩
    rw [escapeChar_of_entity hentity]
    exact hrest.symm
  · refine ⟨c, cs, ?_⟩
    rw [escapeChar_of_not_mem_marks hc]
    rfl

/-- Every escaped text is written for some text. -/
theorem exists_escape {html : List Char} (h : Escaped html) : ∃ text, escape text = html := by
  -- The induction is on the length, since an entity is taken off as a whole.
  induction hn : html.length using Nat.strongRecOn generalizing html with
  | ind n ih =>
    cases html with
    | nil => exact ⟨[], rfl⟩
    | cons c cs =>
      obtain ⟨d, rest, heq⟩ := h.exists_escapeChar
      rw [heq] at h hn ⊢
      have hpos : 0 < (escapeChar d).length := List.length_pos_of_ne_nil (escapeChar_ne_nil d)
      have hlt : rest.length < n := by
        rw [← hn, List.length_append]
        omega
      obtain ⟨text, rfl⟩ := ih rest.length hlt h.of_append rfl
      exact ⟨d :: text, rfl⟩

end Escaped

theorem escaped_iff : Escaped html ↔ escape (decodeEntities html) = html := by
  constructor
  · intro h
    obtain ⟨text, rfl⟩ := h.exists_escape
    rw [decodeEntities_escape]
  · intro h
    rw [← h]
    exact escaped_escape _

/-! ### Trimming -/

theorem escapeChar_of_isBlank (c : Char) (h : isBlank c) : escapeChar c = [c] :=
  escapeChar_of_not_mem_marks (not_mem_marks_of_isBlank h)

theorem dropWhile_escape (text : List Char) :
    (escape text).dropWhile isBlank = escape (text.dropWhile isBlank) := by
  apply dropWhile_flatMap escapeChar_of_isBlank
  intro c hc
  by_cases hmark : c ∈ marks
  · obtain ⟨cs, hcs⟩ := eq_cons_of_entity (entity_escapeChar hmark)
    exact ⟨'&', cs, hcs, by decide⟩
  · exact ⟨c, [], escapeChar_of_not_mem_marks hmark, hc⟩

theorem trimEnd_escape (text : List Char) : trimEnd (escape text) = escape (trimEnd text) := by
  apply dropEndWhile_flatMap escapeChar_of_isBlank
  intro c hc
  by_cases hmark : c ∈ marks
  · obtain ⟨cs, hcs⟩ := eq_concat_of_entity (entity_escapeChar hmark)
    exact ⟨cs, ';', hcs, by decide⟩
  · exact ⟨[], c, escapeChar_of_not_mem_marks hmark, hc⟩

theorem trim_escape (text : List Char) : trim (escape text) = escape (trim text) := by
  rw [trim, trim, dropWhile_escape, trimEnd_escape]

end

/-- Escaping goes part by part. No character of markup stands in escaped text but ampersands that
begin entities, and decoding its entities once from left to right gives the text back. Whatever has
no other characters of markup is written for what it decodes to. Trimming before or after makes no
difference. -/
theorem escape_lossless (text as bs html : List Char) :
    escape (as ++ bs) = escape as ++ escape bs ∧
      Escaped (escape text) ∧
      decodeEntities (escape text) = text ∧
      (Escaped html ↔ escape (decodeEntities html) = html) ∧
      trim (escape text) = escape (trim text) :=
  ⟨escape_append as bs, escaped_escape text, decodeEntities_escape text, escaped_iff,
    trim_escape text⟩

/-- A text between blanks that looks like an entity, and an entity that is cut short. -/
theorem escape_lossless_lookalike :
    escape " &lt;'\u00a0".toList = " &amp;lt;&#39;\u00a0".toList ∧
      decodeEntities " &amp;lt;&#39;\u00a0".toList = " &lt;'\u00a0".toList ∧
      trim " &amp;lt;&#39;\u00a0".toList = "&amp;lt;&#39;".toList ∧
      Escaped " &amp;lt;&#39;\u00a0".toList ∧ ¬ Escaped "a &lt b".toList := by
  have hescape : escape " &lt;'\u00a0".toList = " &amp;lt;&#39;\u00a0".toList := by decide
  obtain ⟨-, hescaped, hdecode, hcut, htrim⟩ :=
    escape_lossless " &lt;'\u00a0".toList [] [] "a &lt b".toList
  rw [hescape] at hescaped hdecode htrim
  refine ⟨hescape, hdecode, htrim.trans (by decide), hescaped, ?_⟩
  intro h
  exact absurd (hcut.1 h) (by decide)

end RichText.Html
