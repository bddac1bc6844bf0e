import RichText.Document.Build
import RichText.Proofs.Render.Locality
import RichText.Proofs.Text.Marked
import RichText.Proofs.Tree.Content

/-!
Images whose files are not there. Nothing is written in their place, but they still part their
siblings, so that a space is written where words would else meet. To tell these spaces from all
others, the tree is written with a mark in their stead: with a space for a mark this is what is
written for the tree, and without a mark what is written for the tree without these images.
-/
namespace RichText

namespace Tree
variable (files : Manifest)

/-- Whether the tree is an image whose file is not there. -/
def isMissing (t : Tree) : Bool :=
  t.kind = .image && t.data.objectId.any fun id => (files.get? id).isNone

mutual
/-- The tree without the images below it whose files are not there. -/
def withoutMissing : Tree → Tree
  | node i d ts => node i d (withoutMissingAll ts)
def withoutMissingAll : List Tree → List Tree
  | [] => []
  | t :: ts =>
    if t.isMissing files then withoutMissingAll ts
    else withoutMissing t :: withoutMissingAll ts
end

variable {files}

@[simp] theorem kind_withoutMissing (t : Tree) : (t.withoutMissing files).kind = t.kind := by
  cases t
  rfl

theorem kind_of_isMissing {t : Tree} (h : t.isMissing files) : t.kind = .image := by
  simp only [isMissing, Bool.and_eq_true, decide_eq_true_eq] at h
  exact h.1

theorem mem_withoutMissingAll {ts : List Tree} {u : Tree} (h : u ∈ withoutMissingAll files ts) :
    ∃ t ∈ ts, u = t.withoutMissing files := by
  induction ts with
  | nil => simp [withoutMissingAll] at h
  | cons t ts ih =>
    have hrest (hu : u ∈ withoutMissingAll files ts) :
        ∃ s ∈ t :: ts, u = s.withoutMissing files := by
      obtain ⟨s, hs, hus⟩ := ih hu
      exact ⟨s, List.mem_cons_of_mem _ hs, hus⟩
    rw [withoutMissingAll] at h
    split at h
    · exact hrest h
    · rcases List.mem_cons.1 h with rfl | hu
      · exact ⟨t, List.mem_cons_self, rfl⟩
      · exact hrest hu

/-- The grammar asks for no image. -/
theorem everywhere_fits_withoutMissing {t : Tree} (h : t.Everywhere Fits) :
    (t.withoutMissing files).Everywhere Fits := by
  induction t with
  | node i d ts ih =>
    rw [everywhere_node, fits_node] at h
    obtain ⟨⟨hd, hts, hsingle⟩, hall⟩ := h
    rw [withoutMissing, everywhere_node, fits_node]
    refine ⟨⟨hd, fun u hu => ?_, fun hs => ?_⟩, fun u hu => ?_⟩
    · obtain ⟨t, ht, rfl⟩ := mem_withoutMissingAll hu
      rw [kind_withoutMissing]
      exact hts t ht
    · -- The one node inside a span is not an image.
      obtain ⟨t, rfl⟩ := List.length_eq_one_iff.1 (hsingle hs)
      have hmay := hts t (by simp)
      have hkept : t.isMissing files = false := by
        rw [Bool.eq_false_iff]
        intro hmissing
        rw [kind_of_isMissing hmissing] at hmay
        cases hk : d.kind <;> simp [hk, Kind.isSpan, Kind.mayHold] at hs hmay
      simp [withoutMissingAll, hkept]
    · obtain ⟨t, ht, rfl⟩ := mem_withoutMissingAll hu
      exact ih t ht (hall t ht)

end Tree

/-- Whether a sibling of the same kind stands before, and the words of both would meet. -/
def Rendered.meetsItsKind (last : Option Char) (previous : Option Kind) (r : Rendered) : Bool :=
  previous = some r.kind && r.leftPad && wordsMeet last r.text.head?

/-- What stands before a sibling: a mark if missing images have `parted` it from a sibling of its
kind and the words of both would meet, and otherwise the space that it needs by itself. -/
def Rendered.lead (mark : List Char) (parted : Bool) (last : Option Char) (previous : Option Kind)
    (r : Rendered) : List Char :=
  if parted && r.meetsItsKind last previous then mark else r.pad last previous

section
variable (rules : Kind → Rule) (files : Manifest) (mark : List Char)

mutual
/-- What is written for a tree without its missing images, with a mark wherever these part two
siblings of one kind whose words would meet. -/
def writeMarked (nested raw : Bool) : Tree → List Char
  | .node _ d ts =>
    match d.objectId with
    | some id => writeObject rules files d.kind id
    | none =>
      let raw := raw || (rules d.kind).raw
      let text := (rules d.kind).literal raw d.content
      (rules d.kind).finish nested d
        (text ++ writeMarkedAll d.kind raw text.getLast? none false ts)
/-- What is written for siblings behind a text that ends in `last` and a sibling of the kind
`previous`, and behind missing images if they are `parted`. -/
def writeMarkedAll (parent : Kind) (raw : Bool) (last : Option Char) (previous : Option Kind)
    (parted : Bool) : List Tree → List Char
  | [] => []
  | c :: cs =>
    if c.isMissing files then writeMarkedAll parent raw last previous true cs
    else
      let text := writeMarked (c.kind = parent) raw c
      let r : Rendered := ⟨c.kind, (rules c.kind).leftPad, text⟩
      r.lead mark parted last previous ++ (text ++
        writeMarkedAll parent raw (text.getLast?.or last) (some c.kind) false cs)
end

end

/-- A rule that leaves a mark between words where it is. -/
structure Rule.KeepsMarks (rule : Rule) : Prop where
  number (k : Nat) {f : List Char → List Char} :
    Marked f → Marked fun mark => rule.byNumber k (f mark)
  level (k : Nat) {f : List Char → List Char} :
    Marked f → Marked fun mark => rule.byLevel k (f mark)
  wrapped {f : List Char → List Char} :
    Marked f → Marked fun mark => rule.after (rule.before (f mark))
  link (url : List Char) {f : List Char → List Char} :
    Marked f → Marked fun mark => rule.link url (f mark)

namespace Rule

theorem KeepsMarks.around {rule : Rule} (hrule : rule.KeepsMarks) (nested : Bool) (d : Node)
    {f : List Char → List Char} (h : Marked f) :
    Marked fun mark => rule.around nested d (f mark) := by
  have hnumbered := Marked.ite (d.number = 0) h (hrule.number d.number h)
  have hleveled := Marked.ite (d.level = 0) hnumbered (hrule.level d.level hnumbered)
  have hwrapped := Marked.ite (rule.wraps nested) (hrule.wrapped hleveled) hleveled
  unfold Rule.around
  cases d.url with
  | none => exact hwrapped
  | some url => exact hrule.link url.toList hwrapped

theorem KeepsMarks.finish {rule : Rule} (hrule : rule.KeepsMarks) (nested : Bool) (d : Node)
    {f : List Char → List Char} (h : Marked f) :
    Marked fun mark => rule.finish nested d (f mark) := by
  have hinside : Marked fun mark => rule.inside (f mark) := Marked.ite rule.trimInside h.trim h
  have hempty (mark : List Char) : (rule.inside (f mark)).isEmpty = (rule.inside (f [])).isEmpty :=
    hinside.isEmpty_eq mark []
  simp only [finish_eq, hempty]
  exact Marked.ite _ Marked.nil (hrule.around nested d hinside)

end Rule

/-! ### What is written for a tree -/

namespace Rendered

theorem pad_of_empty {r : Rendered} (h : r.text = []) (last : Option Char)
    (previous : Option Kind) : r.pad last previous = [] := by
  simp [pad, h, wordsMeet]

theorem meetsItsKind_iff {r : Rendered} {last : Option Char} {previous : Option Kind} :
    r.meetsItsKind last previous ↔
      previous = some r.kind ∧ r.leftPad ∧ wordsMeet last r.text.head? := by
  simp [meetsItsKind, and_assoc]

variable {parted : Bool} {last : Option Char} {previous : Option Kind}

/-- Of the text of a sibling only the first character matters. -/
theorem lead_congr (kind : Kind) (leftPad : Bool) {text text' : List Char}
    (h : text.head? = text'.head?) (mark : List Char) :
    (mk kind leftPad text).lead mark parted last previous =
      (mk kind leftPad text').lead mark parted last previous := by
  have hmeets : (mk kind leftPad text).meetsItsKind last previous =
      (mk kind leftPad text').meetsItsKind last previous := by
    rw [meetsItsKind, meetsItsKind, h]
  have hpad : (mk kind leftPad text).pad last previous =
      (mk kind leftPad text').pad last previous := by
    rw [pad, pad, h]
  rw [lead, lead, hmeets, hpad]

/-- Without a mark there is only the space that a sibling needs by itself, and behind a sibling of
its kind it needs none. -/
theorem lead_nil (r : Rendered) : r.lead [] parted last previous = r.pad last previous := by
  rw [lead]
  split
  · next h =>
    obtain ⟨rfl, -, -⟩ := meetsItsKind_iff.1 (Bool.and_eq_true_iff.1 h).2
    simp [pad]
  · rfl

/-- A space for a mark is the space that a sibling needs behind an image. -/
theorem lead_space {r : Rendered} (hr : r.leftPad → r.kind ≠ .image)
    (hfirst : previous = none → last = none) :
    r.lead [' '] parted last previous =
      r.pad last (if parted then some .image else previous) := by
  cases parted with
  | false => rfl
  | true =>
    rw [lead, Bool.true_and, if_pos rfl]
    split
    · next h =>
      obtain ⟨-, hl, hmeet⟩ := meetsItsKind_iff.1 h
      simp [pad, hl, hmeet, (hr hl).symm]
    · next h =>
      cases hl : r.leftPad with
      | false => simp [pad, hl]
      | true =>
        cases hmeet : wordsMeet last r.text.head? with
        | false => simp [pad, hmeet]
        | true =>
          cases previous with
          | none => simp [hfirst, wordsMeet] at hmeet
          | some k =>
            have hk : k ≠ r.kind := by
              rintro rfl
              exact h (meetsItsKind_iff.2 ⟨rfl, hl, hmeet⟩)
            simp [pad, hl, hmeet, hk, (hr hl).symm]

theorem getLast?_append_lead (as mark text : List Char) (kind : Kind) (leftPad : Bool) :
    (as ++ ((mk kind leftPad text).lead mark parted last previous ++ text)).getLast? =
      text.getLast?.or as.getLast? := by
  cases text with
  | nil => simp [lead, meetsItsKind, pad, wordsMeet]
  | cons c cs => simp [List.getLast?_append, List.getLast?_cons]

end Rendered

/-- One more sibling behind a marked text. -/
theorem Marked.sibling {as text : List Char → List Char} (has : Marked as) (htext : Marked text)
    (kind : Kind) (leftPad parted : Bool) (previous : Option Kind) :
    Marked fun mark => as mark ++
      ((Rendered.mk kind leftPad (text mark)).lead mark parted (as mark).getLast? previous ++
        text mark) := by
  have hlast (mark : List Char) : (as mark).getLast? = (as []).getLast? := has.getLast?_eq mark []
  have hfirst (mark : List Char) : (text mark).head? = (text []).head? := htext.head?_eq mark []
  let r : Rendered := ⟨kind, leftPad, text []⟩
  have hlead (mark : List Char) :
      (Rendered.mk kind leftPad (text mark)).lead mark parted (as mark).getLast? previous =
        r.lead mark parted (as []).getLast? previous := by
    rw [hlast]
    exact Rendered.lead_congr kind leftPad (hfirst mark) mark
  simp only [hlead]
  by_cases h : parted && r.meetsItsKind (as []).getLast? previous
  · simp only [Rendered.lead, if_pos h]
    apply has.join htext
    intro mark
    rw [hlast, hfirst]
    exact (Rendered.meetsItsKind_iff.1 (Bool.and_eq_true_iff.1 h).2).2.2
  · simp only [Rendered.lead, if_neg h]
    apply has.append
    exact htext.prepend _

section
variable {rules : Kind → Rule} {files : Manifest}

theorem writeAll_cons (parent : Kind) (raw : Bool) (t : Tree) (ts : List Tree) :
    writeAll rules files parent raw (t :: ts) =
      ⟨t.kind, (rules t.kind).leftPad, writeTree rules files (t.kind = parent) raw t⟩ ::
        writeAll rules files parent raw ts := rfl

/-- A missing image writes nothing. -/
theorem writeTree_of_isMissing {t : Tree} (h : t.isMissing files) (nested raw : Bool) :
    writeTree rules files nested raw t = [] := by
  obtain ⟨i, d, ts⟩ := t
  simp only [Tree.isMissing, Bool.and_eq_true, Tree.data_node] at h
  cases hid : d.objectId with
  | none => simp [hid] at h
  | some id =>
    have hnone : files.get? id = none := by simpa [hid] using h.2
    simp only [writeTree, hid, writeObject, hnone]

section
variable (parent : Kind) (raw : Bool) {us : List Tree}

theorem writeMarkedAll_nil
    (hus : ∀ u ∈ us, ∀ nested, writeMarked rules files [] nested raw u =
      writeTree rules files nested raw (u.withoutMissing files))
    (last : Option Char) (previous : Option Kind) (parted : Bool) :
    writeMarkedAll rules files [] parent raw last previous parted us =
      joinRendered last previous
        (writeAll rules files parent raw (Tree.withoutMissingAll files us)) := by
  induction us generalizing last previous parted with
  | nil => rfl
  | cons u us ih =>
    simp only [List.mem_cons, forall_eq_or_imp] at hus
    rw [writeMarkedAll, Tree.withoutMissingAll]
    split
    · exact ih hus.2 _ _ _
    · simp only [Rendered.lead_nil, hus.1, ih hus.2, writeAll_cons, joinRendered_cons,
        Tree.kind_withoutMissing]

/-- Behind a missing image the next sibling stands as behind an image. -/
theorem writeMarkedAll_space (hleft : (rules .image).leftPad = false)
    (hus : ∀ u ∈ us, ∀ nested, writeMarked rules files [' '] nested raw u =
      writeTree rules files nested raw u)
    {last : Option Char} {previous : Option Kind} (hfirst : previous = none → last = none)
    (parted : Bool) :
    writeMarkedAll rules files [' '] parent raw last previous parted us =
      joinRendered last (if parted then some .image else previous)
        (writeAll rules files parent raw us) := by
  induction us generalizing last previous parted with
  | nil => rfl
  | cons u us ih =>
    simp only [List.mem_cons, forall_eq_or_imp] at hus
    rw [writeMarkedAll, writeAll_cons, joinRendered_cons]
    split
    · next hu =>
      have htext : writeTree rules files (u.kind = parent) raw u = [] :=
        writeTree_of_isMissing hu _ _
      rw [ih hus.2 hfirst, htext, Rendered.pad_of_empty rfl, Tree.kind_of_isMissing hu]
      rfl
    · have hr : (rules u.kind).leftPad → u.kind ≠ .image := by
        intro hl hk
        rw [hk, hleft] at hl
        cases hl
      have hnext {last : Option Char} (hk : some u.kind = none) : last = none := by cases hk
      simp only [hus.1]
      rw [Rendered.lead_space hr hfirst, ih hus.2 hnext]
      rfl

/-- Siblings behind a marked text. -/
theorem marked_writeMarkedAll
    (hus : ∀ u ∈ us, ∀ nested, Marked fun mark => writeMarked rules files mark nested raw u)
    {as : List Char → List Char} (has : Marked as) (previous : Option Kind) (parted : Bool) :
    Marked fun mark => as mark ++
      writeMarkedAll rules files mark parent raw (as mark).getLast? previous parted us := by
  induction us generalizing as previous parted with
  | nil => simpa only [writeMarkedAll, List.append_nil] using has
  | cons u us ih =>
    simp only [List.mem_cons, forall_eq_or_imp] at hus
    simp only [writeMarkedAll]
    split
    · exact ih hus.2 has previous true
    · have hstep := has.sibling (hus.1 (u.kind = parent)) u.kind (rules u.kind).leftPad parted
        previous
      have hrest := ih hus.2 hstep (some u.kind) false
      simp only [Rendered.getLast?_append_lead] at hrest
      simpa only [List.append_assoc] using hrest

end

/-- Without a mark the tree is written as it is without its missing images. -/
theorem writeMarked_nil (t : Tree) (nested raw : Bool) :
    writeMarked rules files [] nested raw t =
      writeTree rules files nested raw (t.withoutMissing files) := by
  induction t generalizing nested raw with
  | node i d ts ih =>
    rw [writeMarked, Tree.withoutMissing, writeTree]
    cases d.objectId with
    | some id => rfl
    | none =>
      have hts (raw : Bool) := writeMarkedAll_nil d.kind raw fun u hu nested => ih u hu nested raw
      simp only [hts]

/-- With a space for a mark the tree is written as it is. -/
theorem writeMarked_space (hleft : (rules .image).leftPad = false) {t : Tree}
    (h : t.Everywhere Tree.Fits) (nested raw : Bool) :
    writeMarked rules files [' '] nested raw t = writeTree rules files nested raw t := by
  induction t generalizing nested raw with
  | node i d ts ih =>
    rw [Tree.everywhere_node, Tree.fits_node] at h
    obtain ⟨⟨hd, hts, -⟩, hbelow⟩ := h
    rw [writeMarked, writeTree]
    cases d.objectId with
    | some id => rfl
    | none =>
      cases ts with
      | nil => rfl
      | cons t ts =>
        -- A node with nodes below it has no text, so that no child stands behind a character.
        have hliteral : (rules d.kind).literal (raw || (rules d.kind).raw) d.content = [] := by
          rw [hd.content_eq_empty (Kind.ne_of_mayHold (hts t List.mem_cons_self))]
          rfl
        have hall := writeMarkedAll_space d.kind (raw || (rules d.kind).raw) hleft
          (fun u hu nested => ih u hu (hbelow u hu) nested _)
          (fun _ : (none : Option Kind) = none => (List.getLast?_nil : [].getLast? = none)) false
        simp only [hliteral, hall]
        rfl

/-- The marks stand between words, by rules that leave them there. Code has nothing below it, so
that its rule need not be one of them. -/
theorem marked_writeMarked (hrules : ∀ k, k ≠ .code → (rules k).KeepsMarks) {t : Tree}
    (h : t.Everywhere Tree.Fits) (nested raw : Bool) :
    Marked fun mark => writeMarked rules files mark nested raw t := by
  induction t generalizing nested raw with
  | node i d ts ih =>
    rw [Tree.everywhere_node, Tree.fits_node] at h
    obtain ⟨⟨hd, hts, -⟩, hbelow⟩ := h
    simp only [writeMarked]
    cases d.objectId with
    | some id => exact Marked.const _
    | none =>
      cases ts with
      | nil =>
        simp only [writeMarkedAll]
        exact Marked.const _
      | cons t ts =>
        have hcode : d.kind ≠ .code := (Kind.ne_of_mayHold (hts t List.mem_cons_self)).2
        apply (hrules d.kind hcode).finish nested d
        apply marked_writeMarkedAll d.kind _ _ (Marked.const _)
        intro u hu nested
        exact ih u hu (hbelow u hu) nested _

end

/-! ### The three formats -/

theorem Markdown.keepsMarks {k : Kind} (hk : k ≠ .code) : (rule k).KeepsMarks where
  number j _ h := by
    cases k
    case orderedItem => exact h.prepend _
    all_goals exact h
  level j _ h := by
    cases k
    case heading => exact (h.keep ' ').prepend _
    case unorderedItem => exact h.prepend _
    case orderedItem => exact h.prepend _
    all_goals exact h
  wrapped h := by
    cases k
    case code => contradiction
    case document => exact h.finishDocument
    case plain | link | image => exact h
    all_goals exact h.enclose _ _
  link url _ h := by
    cases k
    case link => exact (((h.keep '[').concat _).concat url).concat [')']
    all_goals exact h

theorem Html.keepsMarks {k : Kind} (hk : k ≠ .code) : (rule k).KeepsMarks where
  number j _ h := by
    cases k
    case orderedItem => exact h.enclose _ _
    all_goals exact h
  level j _ h := by
    cases k
    case heading => exact ((((h.keep '>').prepend _).concat _).concat _).concat _
    all_goals exact h
  wrapped h := by
    cases k
    case code => contradiction
    case plain | link | image | heading | orderedItem => exact h
    all_goals exact h.enclose _ _
  link url _ h := by
    cases k
    case link => exact h.enclose _ _
    all_goals exact h

theorem PlainText.keepsMarks {k : Kind} (hk : k ≠ .code) : (rule k).KeepsMarks where
  number j _ h := by
    cases k
    case orderedItem => exact h.prepend _
    all_goals exact h
  level j _ h := by
    cases k
    case unorderedItem => exact h.prepend _
    case orderedItem => exact h.prepend _
    all_goals exact h
  wrapped h := by
    cases k
    case code => contradiction
    case document => exact h.finishDocument
    case tableRow => exact (h.dropEndWhile fun _ => isBlank_of_eq_tab).concat ['\n']
    case plain | bold | italic | link | image => exact h
    all_goals exact h.enclose _ _
  link url _ h := by
    cases k
    case link => exact ((h.concat _).concat url).concat ['>']
    all_goals exact h

/-- The rules of the three formats by their keys. -/
def formatRules : List (String × (Kind → Rule)) :=
  [("md", Markdown.rule), ("html", Html.rule), ("txt", PlainText.rule)]

/-- Numbers do not matter to what is rendered. -/
theorem render_eq_of_unnumbered (format : String) (files : Manifest) {t u : Tree}
    (h : t.unnumbered = u.unnumbered) : render format t files = render format u files := by
  have htable (table : RuleTable) : table.render files t = table.render files u := by
    rw [RuleTable.render, RuleTable.render, ← RuleTable.renderTree_unnumbered, h,
      RuleTable.renderTree_unnumbered]
  simp only [render, Registry.render, htable]

section
variable {rules : Kind → Rule} (files : Manifest)

theorem exists_pieces_render {format key : String}
    (hget : Registry.standard.get format = .ok ⟨key, fun k => some (rules k)⟩)
    (hfile : (rules .image).file.isSome) (hleft : (rules .image).leftPad = false)
    (hrules : ∀ k, k ≠ .code → (rules k).KeepsMarks) {t u : Tree} (h : t.Everywhere Tree.Fits)
    (hu : u.unnumbered = (t.withoutMissing files).unnumbered) :
    ∃ pieces : List (List Char), pieces ≠ [] ∧ Meeting pieces ∧
      (∀ mark, writeMarked rules files mark false false t = mark.intercalate pieces) ∧
      render format t files = .ok (String.ofList ([' '].intercalate pieces)) ∧
      render format u files = .ok (String.ofList pieces.flatten) := by
  have hmark : Marked fun mark => writeMarked rules files mark false false t :=
    marked_writeMarked hrules h false false
  obtain ⟨piece, rest, hmeeting, hmarked⟩ := hmark.exists_pieces
  refine ⟨piece :: rest, by simp, hmeeting, hmarked, ?_, ?_⟩
  · rw [render_eq_ok files hget hfile h, ← writeMarked_space hleft h, hmarked]
  · have hwithout : (t.withoutMissing files).Everywhere Tree.Fits :=
      Tree.everywhere_fits_withoutMissing h
    rw [render_eq_of_unnumbered format files hu, render_eq_ok files hget hfile hwithout,
      ← writeMarked_nil, hmarked, intercalate_nil]

end

namespace Document

/-- The tree of a document, and the same tree without the images whose files are not there, however
that is numbered, are both rendered in the three formats. The second text is cut into pieces at the
places where missing images part two siblings of one kind whose words would meet, and the first text
is these pieces with a space between them. Where there is no such place, missing images leave no
trace, and elsewhere they do. -/
theorem render_without_missing {d : Document} {o : Options} {t : Tree} (h : d.tree o = .ok t)
    (files : Manifest) {format : String} {rules : Kind → Rule} (hf : (format, rules) ∈ formatRules)
    {u : Tree} (hu : u.unnumbered = (t.withoutMissing files).unnumbered) :
    ∃ pieces : List (List Char), Meeting pieces ∧
      (∀ mark, writeMarked rules files mark false false t = mark.intercalate pieces) ∧
      render format t files = .ok (String.ofList ([' '].intercalate pieces)) ∧
      render format u files = .ok (String.ofList pieces.flatten) ∧
      (render format t files = render format u files ↔ pieces.length = 1) := by
  have hpieces : ∃ pieces : List (List Char), pieces ≠ [] ∧ Meeting pieces ∧
      (∀ mark, writeMarked rules files mark false false t = mark.intercalate pieces) ∧
      render format t files = .ok (String.ofList ([' '].intercalate pieces)) ∧
      render format u files = .ok (String.ofList pieces.flatten) := by
    have hfits := everywhere_fits h
    simp only [formatRules, List.mem_cons, List.not_mem_nil, or_false, Prod.mk.injEq] at hf
    rcases hf with ⟨rfl, rfl⟩ | ⟨rfl, rfl⟩ | ⟨rfl, rfl⟩
    · have hget : Registry.standard.get "md" = .ok ⟨"md", fun k => some (Markdown.rule k)⟩ := rfl
      exact exists_pieces_render files hget rfl rfl (fun _ => Markdown.keepsMarks) hfits hu
    · have hget : Registry.standard.get "html" = .ok ⟨"html", fun k => some (Html.rule k)⟩ := rfl
      exact exists_pieces_render files hget rfl rfl (fun _ => Html.keepsMarks) hfits hu
    · have hget : Registry.standard.get "txt" = .ok ⟨"txt", fun k => some (PlainText.rule k)⟩ := rfl
      exact exists_pieces_render files hget rfl rfl (fun _ => PlainText.keepsMarks) hfits hu
  obtain ⟨pieces, hne, hmeeting, hmarked, ht, hu'⟩ := hpieces
  refine ⟨pieces, hmeeting, hmarked, ht, hu', ?_⟩
  rw [ht, hu', Except.ok.injEq, String.ofList_inj]
  exact intercalate_eq_flatten_iff hne

end Document

namespace Paragraph

theorem inlines_eq_of_pairwise {p : Paragraph}
    (h : p.elements.Pairwise fun a b => a.startIndex ≤ b.startIndex) :
    p.inlines = p.elements.filterMap Inline.ofElement? := by
  rw [inlines, sortedElements_eq_of_pairwise h]

/-- Two words with a missing image between them. -/
def parted : Paragraph := ((Paragraph.ofText "a").addObject "x").addRun (.ofText "b")

/-- Two words in bold with a missing image and another one between them. -/
def framed : Paragraph :=
  (((Paragraph.addRun {} (.withBold (.ofText "c"))).addObject "x").addObject "o").addRun
    (.withBold (.ofText "d"))

theorem inlines_parted :
    parted.inlines = [.text false false none "a", .image "x", .text false false none "b"] :=
  inlines_eq_of_pairwise (by decide)

theorem inlines_framed : framed.inlines =
    [.text true false none "c", .image "x", .image "o", .text true false none "d"] :=
  inlines_eq_of_pairwise (by decide)

end Paragraph

def Manifest.gallery : Manifest := .ofList [("o", ⟨"o.png", 1, 1⟩)]

namespace Document

def gallery : Document := (({} : Document).addParagraph .parted).addParagraph .framed

theorem tree_gallery : gallery.tree {} = .ok (Tree.ofBlocks
    [.paragraph [.text false false none "a", .image "x", .text false false none "b"],
      .paragraph [.text true false none "c", .image "x", .image "o",
        .text true false none "d"]]) := by
  rw [← Paragraph.inlines_parted, ← Paragraph.inlines_framed]
  rfl

theorem render_without_missing_gallery : ∃ t pieces, gallery.tree {} = .ok t ∧
    render "html" t Manifest.gallery = .ok (String.ofList ([' '].intercalate pieces)) ∧
    render "html" (t.withoutMissing Manifest.gallery) Manifest.gallery =
      .ok (String.ofList pieces.flatten) ∧
    ['|'].intercalate pieces =
      "<p>a|b</p>\n<p><b>c</b><img src=\"o.png\" height=1 width=1 /> <b>d</b></p>\n".toList := by
  have hhtml : ("html", Html.rule) ∈ formatRules := .tail _ (.head _)
  obtain ⟨pieces, -, hmarked, ht, hwithout, -⟩ :=
    render_without_missing tree_gallery Manifest.gallery hhtml rfl
  refine ⟨_, pieces, tree_gallery, ht, hwithout, ?_⟩
  rw [← hmarked]
  decide +kernel

/-- An image that is not there between two words. -/
def parted : Document := ({} : Document).addParagraph .parted

/-- A missing image can leave a space. -/
theorem trace_of_missing : ∃ t, parted.tree {} = .ok t ∧
    render "md" t .empty = .ok "a b\n" ∧
    ∀ u : Tree, u.unnumbered = (t.withoutMissing .empty).unnumbered →
      render "md" u .empty = .ok "ab\n" := by
  have htree : parted.tree {} = .ok (Tree.ofBlocks
      [.paragraph [.text false false none "a", .image "x", .text false false none "b"]]) := by
    rw [← Paragraph.inlines_parted]
    rfl
  refine ⟨_, htree, by decide, fun u hu => (render_eq_of_unnumbered "md" .empty hu).trans ?_⟩
  decide

end Document

end RichText
