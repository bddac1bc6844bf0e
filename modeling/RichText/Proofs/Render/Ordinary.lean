import RichText.Document.Build
import RichText.Proofs.Render.Writing
import RichText.Proofs.Tree.Content

/-!
Ordinary paragraphs: neither items nor headings nor code, and runs without links. In the formats of
lines a document of such paragraphs is written one paragraph after the other, and a paragraph one
run after the other.
-/
namespace RichText

namespace TextRun

/-- The kind of the outermost span around the run. -/
def spanKind (r : TextRun) : Kind :=
  if r.style.bold then .bold else if r.style.italic then .italic else .plain

def inline (r : TextRun) : Inline := .text r.style.bold r.style.italic r.url? r.content

end TextRun

namespace Paragraph

/-- The runs that are not empty, by their offsets. -/
def runs (p : Paragraph) : List TextRun :=
  (p.sortedElements.filterMap fun e => e.textRun).filter fun r => r.content ≠ ""

/-- Neither an item nor a heading nor code, and nothing but runs without links. -/
structure Ordinary (o : Options) (p : Paragraph) : Prop where
  bullet : p.bullet = none
  style : p.style.headingLevel = 0
  font : p.isInFont o.codeFont = false
  elements : ∀ e ∈ p.elements, ∃ r, e.textRun = some r ∧ r.url? = none

end Paragraph

/-- Whether the body holds ordinary paragraphs and nothing else. -/
def Document.Ordinary (o : Options) (d : Document) : Prop :=
  ∀ e ∈ d.body, ∃ i j p, e = .mk i j (some p) none ∧ p.Ordinary o

namespace Paragraph
variable {o : Options} {p : Paragraph}

theorem inlines_eq (h : ∀ e ∈ p.elements, ∃ r, e.textRun = some r) :
    p.inlines = p.runs.map TextRun.inline := by
  have hsorted : ∀ e ∈ p.sortedElements, ∃ r, e.textRun = some r :=
    fun e he => h e (List.mem_mergeSort.1 he)
  rw [inlines, runs]
  generalize p.sortedElements = es at hsorted
  induction es with
  | nil => rfl
  | cons e es ih =>
    simp only [List.mem_cons, forall_eq_or_imp] at hsorted
    obtain ⟨r, hr⟩ := hsorted.1
    by_cases hc : r.content = "" <;>
      simp [Inline.ofElement?, TextRun.inline, hr, hc, ih hsorted.2]

/-- Where the elements stand in the order of their offsets, the runs are taken as they stand. -/
theorem runs_eq_of_pairwise
    (h : p.elements.Pairwise fun a b => a.startIndex ≤ b.startIndex) :
    p.runs = (p.elements.filterMap fun e => e.textRun).filter fun r => r.content ≠ "" := by
  rw [runs, sortedElements_eq_of_pairwise h]

theorem flatMap_runs (p : Paragraph) :
    p.runs.flatMap (fun r => r.content.toList) = p.sortedText.toList := by
  rw [toList_sortedText, runs, text]
  induction p.sortedElements with
  | nil => rfl
  | cons e es ih =>
    rw [List.flatMap_cons, ← ih]
    cases hr : e.textRun with
    | none => simp [hr, ParagraphElement.text]
    | some r => by_cases hc : r.content = "" <;> simp [hr, hc, ParagraphElement.text]

theorem Ordinary.url?_eq (h : p.Ordinary o) : ∀ r ∈ p.runs, r.url? = none := by
  intro r hr
  obtain ⟨e, he, her⟩ := List.mem_filterMap.1 (List.mem_filter.1 hr).1
  obtain ⟨s, hs, hurl⟩ := h.elements e (List.mem_mergeSort.1 he)
  rw [her, Option.some.injEq] at hs
  rwa [hs]

theorem Ordinary.ofParagraph_eq (h : p.Ordinary o) (lists : Catalog ListStyle)
    (seen : List Bullet) :
    Block.ofParagraph o lists seen p = .ok (.paragraph (p.runs.map TextRun.inline), seen) := by
  have hinlines := inlines_eq fun e he => (h.elements e he).imp fun _ => And.left
  simp [Block.ofParagraph, h.bullet, h.style, h.font, hinlines]

theorem ordinary_empty (o : Options) : ({} : Paragraph).Ordinary o := ⟨rfl, rfl, rfl, by simp⟩

/-- A run that is no code keeps a paragraph ordinary. -/
theorem Ordinary.addRun (h : p.Ordinary o) {r : TextRun} (hurl : r.url? = none)
    (hfont : r.fontFamily? ≠ some o.codeFont) : (p.addRun r).Ordinary o where
  bullet := h.bullet
  style := h.style
  font := by simp [isInFont, Paragraph.addRun, hfont]
  elements := by
    intro e he
    rcases List.mem_append.1 he with he | he
    · exact h.elements e he
    · exact ⟨r, by rw [List.mem_singleton.1 he], hurl⟩

end Paragraph

namespace Document
variable {o : Options} {d : Document}

theorem Ordinary.blocks_eq (h : d.Ordinary o) :
    d.blocks o = .ok (d.paragraphs.map fun p => .paragraph (p.runs.map TextRun.inline)) := by
  rw [Ordinary] at h
  rw [blocks, paragraphs]
  generalize d.body = es at h
  have hbody : Block.ofElements o d.lists [] es = .ok ((Element.paragraphsOfAll es).map fun p =>
      .paragraph (p.runs.map TextRun.inline), []) := by
    induction es with
    | nil => rfl
    | cons e es ih =>
      simp only [List.mem_cons, forall_eq_or_imp] at h
      obtain ⟨i, j, p, rfl, hp⟩ := h.1
      simp only [Block.ofElements, Block.ofElement, Block.ofParagraph?, hp.ofParagraph_eq,
        ih h.2, bind, Except.bind, pure, Except.pure]
      rfl
  rw [hbody]
  rfl

theorem Ordinary.of_mem_paragraphs (h : d.Ordinary o) : ∀ p ∈ d.paragraphs, p.Ordinary o := by
  rw [Ordinary] at h
  rw [paragraphs]
  generalize d.body = es at h
  induction es with
  | nil => simp [Element.paragraphsOfAll]
  | cons e es ih =>
    simp only [List.mem_cons, forall_eq_or_imp] at h
    obtain ⟨i, j, p, rfl, hp⟩ := h.1
    intro q hq
    rcases List.mem_append.1 hq with hq | hq
    · rwa [List.mem_singleton.1 hq]
    · exact ih h.2 q hq

theorem ordinary_empty (o : Options) : ({} : Document).Ordinary o := by simp [Ordinary]

theorem Ordinary.addParagraph (h : d.Ordinary o) {p : Paragraph} (hp : p.Ordinary o) :
    (d.addParagraph p).Ordinary o := by
  intro e he
  rcases List.mem_append.1 he with he | he
  · exact h e he
  · exact ⟨0, 0, p, List.mem_singleton.1 he, hp⟩

end Document

section
variable (rules : Kind → Rule) (files : Manifest)

/-- A run in the spans around it. -/
def TextRun.written (raw : Bool) (r : TextRun) : Rendered :=
  ⟨r.spanKind, (rules r.spanKind).leftPad, writeTree rules files false raw (r.inline.tree 0)⟩

theorem writeTree_inline (nested raw : Bool) (id : Nat) (i : Inline) :
    writeTree rules files nested raw (i.tree id) = writeTree rules files nested raw (i.tree 0) := by
  cases i with
  | text bold italic url content => cases bold <;> cases italic <;> cases url <;> rfl
  | image objectId => rfl

/-- The number of a run in the tree and the kind of the paragraph around it do not matter. -/
theorem writeAll_inlines (raw : Bool) {k : Kind} (hk : k.isInline = false) (id : Nat)
    {rs : List TextRun} (h : ∀ r ∈ rs, r.url? = none) :
    writeAll rules files k raw (Inline.trees id (rs.map TextRun.inline)) =
      rs.map (TextRun.written rules files raw) := by
  induction rs generalizing id with
  | nil => rfl
  | cons r rs ih =>
    simp only [List.mem_cons, forall_eq_or_imp] at h
    have hkind : (r.inline.tree id).kind = r.spanKind := by
      rw [TextRun.inline, h.1, TextRun.spanKind]
      cases r.style.bold <;> cases r.style.italic <;> rfl
    have hne : r.spanKind ≠ k := by
      rintro rfl
      revert hk
      rw [TextRun.spanKind]
      cases r.style.bold <;> cases r.style.italic <;> decide
    simp only [List.map_cons, Inline.trees, writeAll, ih _ h.2, hkind, writeTree_inline _ _ _ _ id,
      TextRun.written, decide_eq_false hne]

theorem writeTree_plain {escape : List Char → List Char}
    (hplain : rules .plain = { wrapping := .unlessNested, leftPad := true, escape })
    (nested : Bool) (id : Nat) {content : String} (hcontent : content ≠ "") :
    writeTree rules files nested false (.leaf id { kind := .plain, content }) =
      escape (content.toList.flatMap softBreak) := by
  simp [writeTree, writeAll, hplain, Rule.literal, hcontent, joinRendered, Rule.finish]

theorem writeAll_append (k : Kind) (raw : Bool) (ts us : List Tree) :
    writeAll rules files k raw (ts ++ us) =
      writeAll rules files k raw ts ++ writeAll rules files k raw us := by
  rw [writeAll_eq_map, writeAll_eq_map, writeAll_eq_map, List.map_append]

/-- The text of a paragraph from the text inside it: trimmed, and with an empty line behind it if
anything is left. -/
def paragraphText (inner : List Char) : List Char :=
  if (trim inner).isEmpty then [] else trim inner ++ ['\n', '\n']

variable {rules} (hparagraph : rules .paragraph = Rule.block.enclosed "" "\n\n")
include hparagraph

theorem writeTree_paragraph (nested : Bool) (id : Nat) {rs : List TextRun}
    (h : ∀ r ∈ rs, r.url? = none) :
    writeTree rules files nested false
        (.node id { kind := .paragraph } (Inline.trees (id + 1) (rs.map TextRun.inline))) =
      paragraphText (joinRendered none none (rs.map (TextRun.written rules files false))) := by
  have hruns := writeAll_inlines rules files false (k := .paragraph) rfl (id + 1) h
  simp only [writeTree, hparagraph, Rule.block, Rule.enclosed, Bool.or_false, hruns]
  rfl

theorem writeAll_paragraphs (first : Nat) (before : List Tree) {ps : List Paragraph}
    (h : ∀ p ∈ ps, ∀ r ∈ p.runs, r.url? = none) :
    writeAll rules files .document false
        (Block.placeAll first before (ps.map fun p => .paragraph (p.runs.map TextRun.inline))) =
      writeAll rules files .document false before ++ ps.map fun p =>
        ⟨.paragraph, false, paragraphText
          (joinRendered none none (p.runs.map (TextRun.written rules files false)))⟩ := by
  induction ps generalizing before with
  | nil => simp [Block.placeAll]
  | cons p ps ih =>
    simp only [List.mem_cons, forall_eq_or_imp] at h
    rw [List.map_cons, Block.placeAll, ih _ h.2, Block.place, writeAll_append, List.append_assoc]
    simp only [writeAll, writeTree_paragraph files hparagraph _ _ h.1]
    simp [hparagraph, Rule.block, Rule.enclosed]

omit hparagraph in
/-- Between siblings of one kind there are no spaces. -/
theorem joinRendered_of_kind {k : Kind} {rs : List Rendered} (h : ∀ r ∈ rs, r.kind = k)
    (last : Option Char) {previous : Option Kind} (hprevious : ∀ q ∈ previous, q = k) :
    joinRendered last previous rs = rs.flatMap Rendered.text := by
  induction rs generalizing last previous with
  | nil => rfl
  | cons r rs ih =>
    simp only [List.mem_cons, forall_eq_or_imp] at h
    have hsame : previous.any (· ≠ r.kind) = false := by
      cases previous with
      | none => rfl
      | some q => simp [h.1, hprevious q rfl]
    rw [joinRendered, ih h.2 _ (by simp [h.1]), hsame]
    simp

variable (hdocument : rules .document = { requiresContent := true, after := finishDocument })
include hdocument

theorem Converter.convert_ordinary {c : Converter} {key : String}
    (hget : Registry.standard.get c.format = .ok ⟨key, fun k => some (rules k)⟩)
    (hfile : (rules .image).file.isSome) {d : Document} (h : d.Ordinary c.options) :
    c.convert d files = .ok (String.ofList (finishDocument (d.paragraphs.flatMap fun p =>
      paragraphText
        (joinRendered none none (p.runs.map (TextRun.written rules files false)))))) := by
  have hruns : ∀ p ∈ d.paragraphs, ∀ r ∈ p.runs, r.url? = none :=
    fun p hp => (h.of_mem_paragraphs p hp).url?_eq
  have hfinish (body : List Char) : Rule.finish { requiresContent := true, after := finishDocument }
      false { kind := .document } body = finishDocument body := by cases body <;> rfl
  have hliteral : Rule.literal { requiresContent := true, after := finishDocument } false "" = [] :=
    rfl
  have hjoin {α : Type} (text : α → List Char) (as : List α) :
      joinRendered none none (as.map fun a => ⟨.paragraph, false, text a⟩) = as.flatMap text := by
    rw [joinRendered_of_kind (k := .paragraph) (by simp) none (by simp), List.flatMap_map]
  rw [convert_eq files hget hfile, Document.tree, h.blocks_eq, Except.map, Except.map,
    Tree.ofBlocks, writeTree, hdocument]
  simp only [Bool.or_false, writeAll_paragraphs files hparagraph 1 [] hruns, writeAll,
    List.nil_append, List.getLast?_nil, hjoin, hliteral, hfinish]

end

end RichText
