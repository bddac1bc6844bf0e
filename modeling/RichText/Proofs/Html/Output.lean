import RichText.Document.Build
import RichText.Proofs.Html.Escaping
import RichText.Proofs.Render.Writing
import RichText.Proofs.Tree.Content

/-!
What the HTML format writes is markup, and up to blanks it shows the text of the document. Every
rule puts markup around markup, and what it adds or trims away is blank.
-/
namespace RichText

namespace Html

/-- The text is markup that shows another text up to blanks. -/
def Shows (html text : List Char) : Prop :=
  ∃ shown, Markup html shown ∧ nonblanks shown = nonblanks text

/-- The text is empty, or there is something but blanks in it. -/
def Solid (html : List Char) : Prop := html ≠ [] → nonblanks html ≠ []

namespace Solid
variable {html html' : List Char}

theorem nil : Solid [] := fun h => absurd rfl h

theorem cons {c : Char} (hc : isBlank c = false) (cs : List Char) : Solid (c :: cs) := by
  intro _
  simp [nonblanks_cons, hc]

theorem append (h : Solid html) (h' : Solid html') : Solid (html ++ html') := by
  intro hne
  rw [nonblanks_append, Ne, List.append_eq_nil_iff, not_and_or]
  rw [Ne, List.append_eq_nil_iff, not_and_or] at hne
  exact hne.imp h h'

theorem append_of_ne_nil (pad : List Char) (h : Solid html) (hne : html ≠ []) :
    Solid (pad ++ html) := by
  intro _ hnil
  rw [nonblanks_append, List.append_eq_nil_iff] at hnil
  exact h hne hnil.2

end Solid

namespace Shows
variable {html html' text text' : List Char}

theorem nil : Shows [] [] := ⟨[], .nil, rfl⟩

theorem append (h : Shows html text) (h' : Shows html' text') :
    Shows (html ++ html') (text ++ text') := by
  obtain ⟨shown, hm, hs⟩ := h
  obtain ⟨shown', hm', hs'⟩ := h'
  exact ⟨shown ++ shown', hm.append hm', by rw [nonblanks_append, nonblanks_append, hs, hs']⟩

/-- Blanks are markup that shows nothing. -/
theorem blank {pad : List Char} (h : nonblanks pad = []) : Shows pad [] := by
  induction pad with
  | nil => exact nil
  | cons c cs ih =>
    rw [nonblanks_eq_nil_iff] at h
    have hc : c ∉ marks := not_mem_marks_of_isBlank (h c List.mem_cons_self)
    have hcs : Shows cs [] :=
      ih (nonblanks_eq_nil_iff.2 fun c' hc' => h c' (List.mem_cons_of_mem _ hc'))
    have hone : Shows [c] [] := ⟨[c], .char hc, by simp [nonblanks_cons, h c List.mem_cons_self]⟩
    exact hone.append hcs

theorem append_blank (h : Shows html text) (pad : List Char) (hpad : nonblanks pad = []) :
    Shows (html ++ pad) text := by
  simpa using h.append (blank hpad)

theorem blank_append (h : Shows html text) (pad : List Char) (hpad : nonblanks pad = []) :
    Shows (pad ++ html) text := by
  simpa using (blank hpad).append h

theorem dropEndWhile {p : Char → Bool} (hp : ∀ c, p c → isBlank c) (h : Shows html text) :
    Shows (dropEndWhile p html) text := by
  obtain ⟨shown, hm, hs⟩ := h
  obtain ⟨shown', hm', hs'⟩ := hm.dropEndWhile hp
  exact ⟨shown', hm', hs'.trans hs⟩

theorem trim (h : Shows html text) : Shows (trim html) text := by
  obtain ⟨shown, hm, hs⟩ := h
  obtain ⟨shown', hm', hs'⟩ := hm.dropWhile fun _ hc => hc
  exact dropEndWhile (fun _ hc => hc) ⟨shown', hm', hs'.trans hs⟩

theorem element {t : Tag} (ht : t.Valid) (hn : t.needsContent → nonblanks html ≠ [])
    (h : Shows html text) : Shows (t.opening ++ html ++ t.closing) text := by
  obtain ⟨shown, hm, hs⟩ := h
  exact ⟨shown, .element ht hn hm, hs⟩

/-- The tags of an element may have blanks behind them. -/
theorem enclosed (t : Tag) (lead tail : List Char) {before after : List Char} (ht : t.Valid)
    (hbefore : before = t.opening ++ lead) (hafter : after = t.closing ++ tail)
    (hlead : nonblanks lead = []) (htail : nonblanks tail = [])
    (hn : t.needsContent → nonblanks html ≠ []) (h : Shows html text) :
    Shows (before ++ html ++ after) text := by
  have hinner : t.needsContent → nonblanks (lead ++ html) ≠ [] := by
    intro hneeds
    simpa [hlead] using hn hneeds
  have helement := element ht hinner (h.blank_append lead hlead)
  simpa [hbefore, hafter] using helement.append_blank tail htail

end Shows

theorem imageTag_eq (f : AssetFile) :
    imageTag f = voidImage (escape f.name.toList) f.height.toNat f.width.toNat := by
  unfold imageTag voidImage imageTagBody field
  generalize Nat.toDigits 10 f.height.toNat = height
  generalize Nat.toDigits 10 f.width.toNat = width
  simp

theorem byNumber_eq {k : Kind} (hk : k ≠ .orderedItem) (n : Nat) (text : List Char) :
    (rule k).byNumber n text = text := by
  cases k with
  | orderedItem => exact absurd rfl hk
  | _ => rfl

theorem byLevel_eq {k : Kind} (hk : k ≠ .heading) (n : Nat) (text : List Char) :
    (rule k).byLevel n text = text := by
  cases k with
  | heading => exact absurd rfl hk
  | _ => rfl

theorem around_orderedItem {d : Node} (hd : d.Fits) (hk : d.kind = .orderedItem) (nested : Bool)
    (inner : List Char) : (rule d.kind).around nested d inner = orderedItem d.number inner := by
  have hnumber : d.number ≠ 0 := hd.number.2 (by rw [hk]; rfl)
  have hurl : d.url = none := by simpa [hk] using hd.url
  simp [Rule.around, rule, Rule.block, hk, hnumber, hurl]

section
variable {inner text : List Char} (h : Shows inner text)
include h

theorem shows_link (url : List Char) : Shows (link url inner) text := by
  have hopening : "<a href=\"".toList ++ escape url ++ "\">".toList =
      (Tag.a (escape url)).opening ++ [] := by
    simp [Tag.opening, Tag.name, Tag.attributes, field]
  exact h.enclosed (.a (escape url)) [] [] (isValue_escape url) hopening rfl rfl rfl
    fun hneeds => absurd hneeds Bool.false_ne_true

theorem shows_heading {level : Nat} (hlevel : 1 ≤ level ∧ level ≤ 6) (hn : nonblanks inner ≠ []) :
    Shows (heading level inner) text := by
  have hheading : heading level inner =
      (Tag.h level).opening ++ inner ++ ((Tag.h level).closing ++ ['\n']) := by
    unfold heading Tag.opening Tag.closing
    simp [Tag.name, Tag.attributes]
  rw [hheading]
  exact h.enclosed (.h level) [] ['\n'] hlevel (by simp) rfl rfl rfl fun _ => hn

theorem shows_orderedItem (number : Nat) (hn : nonblanks inner ≠ []) :
    Shows (orderedItem number inner) text := by
  have hitem : orderedItem number inner =
      (Tag.li (some number)).opening ++ inner ++ ((Tag.li (some number)).closing ++ ['\n']) := by
    unfold orderedItem Tag.opening Tag.closing Tag.attributes field
    simp [Tag.name]
  rw [hitem]
  exact h.enclosed (.li (some number)) [] ['\n'] trivial (by simp) rfl rfl rfl fun _ => hn

theorem shows_code : Shows (closeCode (openCode inner)) text := by
  by_cases hline : '\n' ∈ inner
  · have hdrop : dropEndWhile (· = '\n') ("<pre><code>".toList ++ inner) =
        "<pre><code>".toList ++ dropEndWhile (· = '\n') inner := by
      rw [dropEndWhile_append]
      split
      · next hnil =>
        rw [hnil]
        rfl
      · rfl
    have hnewline (c : Char) (hc : decide (c = '\n') = true) : isBlank c := by
      rw [of_decide_eq_true hc]
      decide
    have hcode := (h.dropEndWhile hnewline).element (t := .code) trivial nofun
    have hpre := (hcode.element (t := .pre) trivial nofun).append_blank ['\n'] rfl
    rw [openCode, if_pos hline, closeCode, if_pos (List.mem_append_right _ hline), hdrop]
    simpa [Tag.opening, Tag.closing, Tag.name, Tag.attributes] using hpre
  · have hopen : '\n' ∉ "<code>".toList ++ inner := by simp [hline]
    rw [openCode, if_neg hline, closeCode, if_neg hopen]
    exact h.enclosed .code [] [] trivial rfl rfl rfl rfl nofun

theorem shows_wrapped (k : Kind) (nested : Bool)
    (hn : k ≠ .code → (rule k).requiresContent → nonblanks inner ≠ []) :
    Shows (if (rule k).wraps nested then (rule k).after ((rule k).before inner) else inner)
      text := by
  cases k with
  | document => exact h.append_blank ['\n'] rfl
  | plain | link | heading | image | orderedItem => split <;> exact h
  | code => exact shows_code h
  | bold =>
    cases nested with
    | true => exact h
    | false => exact h.enclosed .b [] [] trivial rfl rfl rfl rfl fun _ => hn nofun rfl
  | italic =>
    cases nested with
    | true => exact h
    | false => exact h.enclosed .i [] [] trivial rfl rfl rfl rfl fun _ => hn nofun rfl
  | paragraph => exact h.enclosed .p [] ['\n'] trivial rfl rfl rfl rfl fun _ => hn nofun rfl
  | unorderedList =>
    exact h.enclosed .ul ['\n'] ['\n'] trivial rfl rfl rfl rfl fun _ => hn nofun rfl
  | orderedList =>
    exact h.enclosed .ol ['\n'] ['\n'] trivial rfl rfl rfl rfl fun _ => hn nofun rfl
  | unorderedItem =>
    exact h.enclosed (.li none) [] ['\n'] trivial rfl rfl rfl rfl fun _ => hn nofun rfl
  | table => exact h.enclosed .table ['\n'] ['\n'] trivial rfl rfl rfl rfl nofun
  | tableRow => exact h.enclosed .tr [] ['\n'] trivial rfl rfl rfl rfl nofun
  | tableCell => exact h.enclosed .td [] [] trivial rfl rfl rfl rfl nofun

/-- What the rule of a kind puts around markup is markup, if there is something in it wherever
something is needed. -/
theorem shows_around {d : Node} (hd : d.Fits) (nested : Bool)
    (hn : d.kind ≠ .code → (rule d.kind).requiresContent → nonblanks inner ≠ []) :
    Shows ((rule d.kind).around nested d inner) text := by
  have hurl (hk : d.kind ≠ .link) : d.url = none := by simpa [hk] using hd.url
  by_cases hlink : d.kind = .link
  · obtain ⟨url, hsome⟩ := Option.isSome_iff_exists.1 (hd.url.2 hlink)
    have haround : (rule d.kind).around nested d inner = link url.toList inner := by
      simp [Rule.around, rule, hlink, hsome]
    rw [haround]
    exact shows_link h url.toList
  by_cases hheading : d.kind = .heading
  · have hlevel := hd.heading hheading
    have haround : (rule d.kind).around nested d inner = heading d.level inner := by
      simp [Rule.around, rule, Rule.block, hheading, Nat.ne_of_gt hlevel.1, hurl hlink]
    rw [haround]
    exact shows_heading h hlevel
      (hn (by simp [hheading]) (by rw [hheading]; rfl))
  by_cases hitem : d.kind = .orderedItem
  · rw [around_orderedItem hd hitem]
    exact shows_orderedItem h d.number (hn (by simp [hitem]) (by rw [hitem]; rfl))
  · rw [Rule.around_eq_of_plain (byNumber_eq hitem) (byLevel_eq hheading) (hurl hlink)]
    exact shows_wrapped h d.kind nested hn

/-- What is in a list has to be solid, since lists are not trimmed before they are left out. -/
theorem shows_finish {d : Node} (hd : d.Fits) (nested : Bool)
    (hlist : d.kind.isList → Solid inner) :
    Shows ((rule d.kind).finish nested d inner) text := by
  have hinside : Shows ((rule d.kind).inside inner) text := by
    unfold Rule.inside
    split
    · exact h.trim
    · exact h
  rw [Rule.finish_eq]
  split
  · next hempty =>
    simp only [Bool.and_eq_true, List.isEmpty_iff] at hempty
    rwa [hempty.2] at hinside
  · next hempty =>
    refine shows_around hinside hd nested fun hcode hneeds => ?_
    have hne : (rule d.kind).inside inner ≠ [] := by simpa [hneeds] using hempty
    cases htrim : (rule d.kind).trimInside with
    | true =>
      simp only [Rule.inside, htrim, if_true] at hne ⊢
      rwa [nonblanks_trim, Ne, ← trim_eq_nil_iff]
    | false =>
      have hk : d.kind.isList := by
        revert hneeds htrim hcode
        cases d.kind <;> decide
      simp only [Rule.inside, htrim, Bool.false_eq_true, if_false] at hne ⊢
      exact hlist hk hne

end

/-- Lists and items begin with a tag unless they are left out. -/
theorem solid_finish {d : Node} (hd : d.Fits) (hk : d.kind.isList ∨ d.kind.isItem) (nested : Bool)
    (inner : List Char) : Solid ((rule d.kind).finish nested d inner) := by
  have hlink : d.kind ≠ .link := by
    intro h
    simp [h, Kind.isList, Kind.isItem] at hk
  have hheading : d.kind ≠ .heading := by
    intro h
    simp [h, Kind.isList, Kind.isItem] at hk
  have hurl : d.url = none := by simpa [hlink] using hd.url
  have haround (inner : List Char) : ∃ cs, (rule d.kind).around nested d inner = '<' :: cs := by
    by_cases hitem : d.kind = .orderedItem
    · exact ⟨_, around_orderedItem hd hitem nested inner⟩
    · rw [Rule.around_eq_of_plain (byNumber_eq hitem) (byLevel_eq hheading) hurl]
      cases hkind : d.kind with
      | unorderedList | orderedList | unorderedItem => exact ⟨_, rfl⟩
      | _ => simp_all [Kind.isList, Kind.isItem]
  rw [Rule.finish_eq]
  split
  · exact .nil
  · obtain ⟨cs, hcs⟩ := haround ((rule d.kind).inside inner)
    rw [hcs]
    exact .cons (by decide) cs

theorem solid_joinRendered (last : Option Char) (previous : Option Kind) {rs : List Rendered}
    (h : ∀ r ∈ rs, Solid r.text) : Solid (joinRendered last previous rs) := by
  induction rs generalizing last previous with
  | nil => exact .nil
  | cons r rs ih =>
    simp only [List.mem_cons, forall_eq_or_imp] at h
    rw [joinRendered]
    refine .append ?_ (ih _ _ h.2)
    split
    · next hpad =>
      -- A space stands only before a text that begins with a word.
      have hne : r.text ≠ [] := by
        intro hnil
        simp [hnil, wordsMeet] at hpad
      exact h.1.append_of_ne_nil [' '] hne
    · exact h.1

theorem solid_writeTree (files : Manifest) (nested : Bool) {t : Tree} (h : t.Fits)
    (hk : t.kind.isList ∨ t.kind.isItem) : Solid (writeTree rule files nested false t) := by
  obtain ⟨i, d, ts⟩ := t
  have hid : d.objectId = none := by
    have himage : d.kind ≠ .image := by
      intro himage
      simp [himage, Kind.isList, Kind.isItem] at hk
    simpa [himage] using h.data.object
  rw [writeTree, hid]
  exact solid_finish h.data hk nested _

/-- The children of a list are lists and items. -/
theorem solid_of_mem_writeAll (files : Manifest) {k : Kind} (hk : k.isList) {ts : List Tree}
    (hts : ∀ t ∈ ts, k.mayHold t.kind) (hfits : ∀ t ∈ ts, t.Fits) :
    ∀ r ∈ writeAll rule files k false ts, Solid r.text := by
  intro r hr
  obtain ⟨t, ht, htext⟩ := exists_of_mem_writeAll hr
  have hkind : t.kind.isList ∨ t.kind.isItem := by
    rcases (Kind.mayHold_list_iff hk).1 (hts t ht) with heq | heq
    · exact .inr (heq ▸ Kind.isItem_itemKind k)
    · exact .inl (heq ▸ hk)
  rw [htext]
  exact solid_writeTree files _ (hfits t ht) hkind

theorem shows_joinRendered (parent : Kind) (files : Manifest) {ts : List Tree}
    (h : ∀ t ∈ ts, ∀ nested, Shows (writeTree rule files nested false t) t.text)
    (last : Option Char) (previous : Option Kind) :
    Shows (joinRendered last previous (writeAll rule files parent false ts))
      (ts.flatMap Tree.text) := by
  induction ts generalizing last previous with
  | nil => exact .nil
  | cons t ts ih =>
    simp only [List.mem_cons, forall_eq_or_imp] at h
    rw [writeAll, joinRendered, List.flatMap_cons]
    refine .append ?_ (ih h.2 _ _)
    split
    · exact (h.1 _).blank_append [' '] rfl
    · exact h.1 _

theorem shows_literal {k : Kind} {content : String} (h : content ≠ "" → k = .plain ∨ k = .code) :
    Shows ((rule k).literal false content) content.toList := by
  rw [Rule.literal]
  split
  · next hempty =>
    rw [hempty]
    exact .nil
  · next hcontent =>
    have hescape : (rule k).escape = escape := by rcases h hcontent with rfl | rfl <;> rfl
    have hmarkup := markup_escape (content.toList.flatMap softBreak)
    rw [hescape]
    exact ⟨_, hmarkup, nonblanks_flatMap_softBreak _⟩

theorem raw_eq (k : Kind) : (rule k).raw = false := by cases k <;> rfl

theorem shows_writeObject (files : Manifest) (k : Kind) (id : String) :
    Shows (writeObject rule files k id) [] := by
  unfold writeObject
  split
  · next file write hfile hwrite =>
    have himage : write = imageTag := by cases k <;> cases hwrite; rfl
    rw [himage, imageTag_eq]
    exact ⟨[], .image _ _ (isValue_escape _), rfl⟩
  · exact .nil

/-- The HTML of a tree that fits the grammar is markup that shows its text up to blanks. -/
theorem shows_writeTree (files : Manifest) {t : Tree} (h : t.Everywhere Tree.Fits)
    (nested : Bool) : Shows (writeTree rule files nested false t) t.text := by
  induction t generalizing nested with
  | node i d ts ih =>
    rw [Tree.everywhere_node] at h
    have hd : d.Fits := h.1.data
    have hempty (hk : d.kind ≠ .plain ∧ d.kind ≠ .code) : d.content = "" := hd.content_eq_empty hk
    rw [Tree.text_node, writeTree]
    cases hid : d.objectId with
    | some id =>
      have himage : d.kind = .image := hd.object.1 (by simp [hid])
      have hts : ts = [] := by
        simpa [himage, Kind.mayHold, List.eq_nil_iff_forall_not_mem] using h.1.children
      rw [hts, hempty (by simp [himage])]
      exact shows_writeObject files d.kind id
    | none =>
      have hchildren (last : Option Char) := shows_joinRendered d.kind files
        (fun t ht nested => ih t ht (h.2 t ht) nested) last none
      simp only [raw_eq, Bool.or_false]
      refine shows_finish ((shows_literal hd.content).append (hchildren _)) hd nested fun hlist => ?_
      rw [hempty (by constructor <;> rintro hk <;> simp [hk, Kind.isList] at hlist)]
      exact solid_joinRendered _ _
        (solid_of_mem_writeAll files hlist h.1.children fun t ht => (h.2 t ht).self)

theorem convert_eq {d : Document} {o : Options} {t : Tree} (h : d.tree o = .ok t)
    (files : Manifest) :
    (Converter.mk "html" o).convert d files =
      .ok (String.ofList (writeTree rule files false false t)) := by
  have hget : Registry.standard.get "html" = .ok ⟨"html", fun k => some (rule k)⟩ := rfl
  rw [Converter.convert_eq files hget rfl d, h]
  rfl

end Html

/-- A document with markup in its strings: a link in bold, code with a line break, an ordered list that
a table interrupts, and an image. -/
def Document.hostile : Document :=
  (({} : Document).addList "n" .numbered)
    |>.addParagraph (.addObject (.addRun {} (.withBold (.withLink (.ofText " a<b ") "\"><x"))) "o")
    |>.addParagraph (.bulleted "n" 1 "&lt;")
    |>.addTable (.addRow {} [[.ofParagraph (.heading "'q'" 2)],
      [.ofParagraph (.bulleted "n" 1 "z"), .ofTable (.addRow {} [Element.cellOfText "\n"])]])
    |>.addParagraph (.addRun {} (.inFont "1 > 0\n" "Consolas"))
    |>.addParagraph (.bulleted "n" 0 "end")

def Manifest.hostile : Manifest := .ofList [("o", ⟨"\" onload=\"x", 0, 0⟩)]

/-- The HTML of a document shows its text: without the tags, and with the entities decoded once,
it is the text of all runs in document order, up to blanks. -/
theorem Document.text_html {d : Document} {o : Options} {t : Tree} (h : d.tree o = .ok t)
    (files : Manifest) :
    ∃ out : String, (Converter.mk "html" o).convert d files = .ok out ∧
      nonblanks (Html.decodeEntities (Html.stripTags out.toList)) = nonblanks d.text := by
  obtain ⟨shown, hmarkup, hshown⟩ := Html.shows_writeTree files (everywhere_fits h) false
  refine ⟨_, Html.convert_eq h files, ?_⟩
  rw [String.toList_ofList, hmarkup.decodeEntities_stripTags, hshown, text_tree h]

theorem Document.text_html_hostile :
    ∃ out : String, (Converter.mk "html" {}).convert hostile .hostile = .ok out ∧
      nonblanks (Html.decodeEntities (Html.stripTags out.toList)) =
        "a<b&lt;'q'z1>0end".toList := by
  obtain ⟨t, ht⟩ : ∃ t, hostile.tree {} = .ok t := ⟨_, rfl⟩
  have htext : nonblanks hostile.text = "a<b&lt;'q'z1>0end".toList := by
    rw [text_eq_of_pairwise (by decide)]
    decide
  rw [← htext]
  exact text_html ht .hostile

/-- The HTML of a document is markup, whatever strings the document and the manifest hold. -/
theorem Document.markup_html {d : Document} {o : Options} {t : Tree} (h : d.tree o = .ok t)
    (files : Manifest) :
    ∃ out : String, (Converter.mk "html" o).convert d files = .ok out ∧
      ∃ text, Html.Markup out.toList text := by
  obtain ⟨shown, hmarkup, -⟩ := Html.shows_writeTree files (everywhere_fits h) false
  refine ⟨_, Html.convert_eq h files, shown, ?_⟩
  rwa [String.toList_ofList]

theorem Document.markup_html_hostile :
    ∃ out : String, (Converter.mk "html" {}).convert hostile .hostile = .ok out ∧
      ∃ text, Html.Markup out.toList text := by
  obtain ⟨t, ht⟩ : ∃ t, hostile.tree {} = .ok t := ⟨_, rfl⟩
  exact markup_html ht .hostile

end RichText
