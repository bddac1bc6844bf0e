import RichText.Document.Build
import RichText.Proofs.Html.Output
import RichText.Proofs.Markdown.Lookalikes
import RichText.Proofs.Tree.Addresses

/-!
Tags in Markdown. Text, file names and all that the rules write by themselves keep less-than signs
to the tags of tables and images. The addresses of links are written as they are, so whatever else
there is of such signs comes from them.
-/
namespace RichText

namespace Markdown

/-- The tags of tables. -/
def tableTags : List (List Char) :=
  ["<table>", "</table>", "<tr>", "</tr>", "<td>", "</td>"].map String.toList

/-- The tags that the format writes itself: those of tables, and images. -/
def IsTag (tag : List Char) : Prop :=
  tag ∈ tableTags ∨
    ∃ src height width, Html.IsValue src ∧ tag = Html.voidImage src height width

/-- A text that opens tags with its own tags and in the addresses of links only. -/
inductive Tagged : List Char → List String → Prop
  | nil : Tagged [] []
  | char {c : Char} {cs : List Char} {urls : List String} (hc : c ≠ '<') (h : Tagged cs urls) :
    Tagged (c :: cs) urls
  | tag {tag cs : List Char} {urls : List String} (htag : IsTag tag) (h : Tagged cs urls) :
    Tagged (tag ++ cs) urls
  | address (url : String) {cs : List Char} {urls : List String} (h : Tagged cs urls) :
    Tagged (']' :: '(' :: (url.toList ++ ')' :: cs)) (url :: urls)

theorem lt_not_mem_imageTagBody {src : List Char} (h : Html.IsValue src) (height width : Nat) :
    '<' ∉ Html.imageTagBody src height width := by
  have hdigits := Html.not_mem_digits (show ('<').isDigit = false by decide)
  unfold Html.imageTagBody Html.field
  simp [h.2.1, hdigits]

theorem IsTag.exists_eq {tag : List Char} (h : IsTag tag) :
    ∃ body, tag = '<' :: (body ++ ['>']) ∧ '<' ∉ body := by
  obtain h | ⟨src, height, width, hsrc, rfl⟩ := h
  · have hall : ∀ tag ∈ tableTags,
        tag = '<' :: (tag.tail.dropLast ++ ['>']) ∧ '<' ∉ tag.tail.dropLast := by decide
    exact ⟨_, hall tag h⟩
  · exact ⟨_, rfl, lt_not_mem_imageTagBody hsrc height width⟩

namespace Tagged
variable {cs ds : List Char} {urls urls' : List String}

theorem append (h : Tagged cs urls) (h' : Tagged ds urls') : Tagged (cs ++ ds) (urls ++ urls') := by
  induction h with
  | nil => exact h'
  | char hc _ ih => exact .char hc ih
  | tag htag _ ih =>
    rw [List.append_assoc]
    exact .tag htag ih
  | address url _ ih =>
    rw [List.cons_append, List.cons_append, List.append_assoc]
    exact .address url ih

/-- Text that opens no tag. -/
theorem plain (h : '<' ∉ cs) : Tagged cs [] := by
  induction cs with
  | nil => exact .nil
  | cons c cs ih =>
    rw [List.mem_cons, not_or] at h
    exact .char (Ne.symm h.1) (ih h.2)

theorem enclosed {lead tail : List Char} (h : Tagged cs urls) (hlead : Tagged lead [])
    (htail : Tagged tail []) : Tagged (lead ++ cs ++ tail) urls := by
  simpa using (hlead.append h).append htail

theorem urls_eq_nil (h : Tagged [] urls) : urls = [] := by
  generalize hcs : [] = cs at h
  cases h with
  | nil => rfl
  | char => cases hcs
  | tag htag =>
    obtain ⟨body, rfl, -⟩ := htag.exists_eq
    cases hcs
  | address => cases hcs

section trimming
variable {p : Char → Bool} (hp : ∀ c, p c → isBlank c)
include hp

theorem dropWhile (h : Tagged cs urls) : Tagged (cs.dropWhile p) urls := by
  induction h with
  | nil => exact .nil
  | @char c cs urls hc h ih =>
    cases hpc : p c with
    | true => simpa [hpc] using ih
    | false => simpa [hpc] using Tagged.char hc h
  | tag htag h _ =>
    have htagged := Tagged.tag htag h
    obtain ⟨body, rfl, -⟩ := htag.exists_eq
    rw [List.cons_append] at htagged ⊢
    rwa [Html.dropWhile_of_not_blank hp (by decide)]
  | address url h _ =>
    rw [Html.dropWhile_of_not_blank hp (by decide)]
    exact .address url h

theorem dropEndWhile_append_of_not_blank {c : Char} (hc : isBlank c = false) (as cs : List Char) :
    RichText.dropEndWhile p (as ++ c :: cs) = as ++ c :: RichText.dropEndWhile p cs := by
  rw [List.append_cons, dropEndWhile_append, Html.dropEndWhile_of_not_blank hp hc]
  split
  · next h => rw [h]
  · rw [List.append_assoc, List.singleton_append]

theorem dropEndWhile (h : Tagged cs urls) : Tagged (dropEndWhile p cs) urls := by
  induction h with
  | nil => exact .nil
  | @char c cs urls hc h ih =>
    rw [← List.singleton_append, dropEndWhile_append]
    split
    · next hcs =>
      rw [hcs] at ih
      rw [ih.urls_eq_nil]
      cases hpc : p c with
      | true => simpa [RichText.dropEndWhile, hpc] using Tagged.nil
      | false => simpa [RichText.dropEndWhile, hpc] using Tagged.char hc .nil
    · exact .char hc ih
  | @tag tag cs urls htag h ih =>
    have htagged := Tagged.tag htag ih
    obtain ⟨body, rfl, -⟩ := htag.exists_eq
    have hsplit (rest : List Char) :
        '<' :: (body ++ ['>']) ++ rest = '<' :: body ++ '>' :: rest := by simp
    rw [hsplit] at htagged ⊢
    rwa [dropEndWhile_append_of_not_blank hp (by decide)]
  | address url h ih =>
    have hsplit (rest : List Char) : ']' :: '(' :: (url.toList ++ ')' :: rest) =
        ']' :: '(' :: url.toList ++ ')' :: rest := rfl
    rw [hsplit, dropEndWhile_append_of_not_blank hp (by decide)]
    exact .address url ih

end trimming

theorem trim (h : Tagged cs urls) : Tagged (trim cs) urls :=
  (h.dropWhile fun _ hc => hc).dropEndWhile fun _ hc => hc

theorem finishDocument (h : Tagged cs urls) : Tagged (finishDocument cs) urls := by
  have hbody : Tagged (trimEnd (cs.dropWhile (· = '\n'))) urls :=
    (h.dropWhile fun _ => isBlank_of_eq_newline).dropEndWhile fun _ hc => hc
  rw [RichText.finishDocument]
  cases hcs : trimEnd (cs.dropWhile (· = '\n')) with
  | nil => rwa [hcs] at hbody
  | cons c text =>
    have hline : Tagged ['\n'] [] := plain (by decide)
    rw [hcs] at hbody
    simpa using hbody.append hline

/-- A less-than sign stands behind what has none. -/
theorem exists_eq_append {block before after : List Char} (hblock : '<' ∉ block)
    (h : block ++ cs = before ++ '<' :: after) : ∃ rest, cs = rest ++ '<' :: after := by
  induction block generalizing before with
  | nil => exact ⟨before, h⟩
  | cons c block ih =>
    rw [List.mem_cons, not_or] at hblock
    cases before with
    | nil => exact absurd (List.cons.inj h).1.symm hblock.1
    | cons b before => exact ih hblock.2 (List.cons.inj h).2

/-- Where no address has a less-than sign, every such sign begins a tag of the format. -/
theorem exists_tag (h : Tagged cs urls) (hurls : ∀ url ∈ urls, '<' ∉ url.toList)
    {before after : List Char} (hcs : cs = before ++ '<' :: after) :
    ∃ tag, IsTag tag ∧ tag <+: '<' :: after := by
  induction h generalizing before with
  | nil => simp at hcs
  | @char c cs urls hc h ih =>
    have hone : '<' ∉ [c] := by simpa using hc.symm
    obtain ⟨rest, hrest⟩ := exists_eq_append hone hcs
    exact ih hurls hrest
  | @tag tag cs urls htag h ih =>
    obtain ⟨body, rfl, hbody⟩ := htag.exists_eq
    cases before with
    | nil => exact ⟨_, htag, cs, hcs⟩
    | cons b before =>
      have hend : '<' ∉ body ++ ['>'] := by simp [hbody]
      obtain ⟨rest, hrest⟩ := exists_eq_append hend (List.cons.inj hcs).2
      exact ih hurls hrest
  | @address url cs urls h ih =>
    simp only [List.mem_cons, forall_eq_or_imp] at hurls
    have haddress : '<' ∉ ']' :: '(' :: (url.toList ++ [')']) := by simp [hurls.1]
    have hsplit : ']' :: '(' :: (url.toList ++ [')']) ++ cs = before ++ '<' :: after := by
      simpa using hcs
    obtain ⟨rest, hrest⟩ := exists_eq_append haddress hsplit
    exact ih hurls.2 hrest

end Tagged

theorem lt_not_mem_escapeIn (column : Column) (c : Char) : '<' ∉ escapeIn column c := by
  rw [escapeIn_eq, escapeChar]
  split_ifs with hmark h₁ h₂ h₃ h₄
  · have hc : c ≠ '<' := by
      rintro rfl
      revert hmark
      cases column <;> decide
    simp [hc.symm]
  · rcases h₁ with rfl | rfl | rfl | rfl | rfl | rfl <;> decide
  · decide
  · decide
  · decide
  · simpa using Ne.symm h₃

theorem lt_not_mem_escape (text : List Char) : '<' ∉ escape text := by
  rw [escape]
  generalize Column.first = column
  induction text generalizing column with
  | nil => simp [escapeFrom]
  | cons c text ih => simp [escapeFrom, lt_not_mem_escapeIn, ih]

section
variable {inner : List Char} {urls : List String} (h : Tagged inner urls)
include h

theorem tagged_byNumber (k : Kind) (n : Nat) : Tagged ((rule k).byNumber n inner) urls := by
  cases k with
  | orderedItem =>
    have hnumber : '<' ∉ Nat.toDigits 10 n ++ ". ".toList := by
      simp [Html.not_mem_digits (show ('<').isDigit = false by decide)]
    exact (Tagged.plain hnumber).append h
  | _ => exact h

theorem tagged_byLevel (k : Kind) (n : Nat) : Tagged ((rule k).byLevel n inner) urls := by
  cases k with
  | heading =>
    have hsharps : '<' ∉ List.replicate n '#' := by simp [List.mem_replicate]
    exact (Tagged.plain hsharps).append (.char (by decide) h)
  | unorderedItem =>
    have hindentation : '<' ∉ indentation "  " n :=
      fun hlt => absurd (mem_of_mem_indentation hlt) (by decide)
    have hbullet : '<' ∉ indentation "  " n ++ "* ".toList := by simp [hindentation]
    exact (Tagged.plain hbullet).append h
  | orderedItem =>
    have hindentation : '<' ∉ indentation "   " n :=
      fun hlt => absurd (mem_of_mem_indentation hlt) (by decide)
    exact (Tagged.plain hindentation).append h
  | _ => exact h

theorem tagged_wrapped {k : Kind} (hk : k ≠ .code) :
    Tagged ((rule k).after ((rule k).before inner)) urls := by
  have htag (tag : String) (htag : tag.toList ∈ tableTags) : Tagged tag.toList [] := by
    simpa using Tagged.tag (.inl htag) .nil
  have hlines : Tagged ['\n', '\n'] [] := .plain (by decide)
  cases k with
  | document => exact h.finishDocument
  | plain | link | image => exact h
  | code => exact absurd rfl hk
  | bold | italic | paragraph | heading | unorderedList | orderedList | unorderedItem
  | orderedItem => exact h.enclosed (.plain (by decide)) (.plain (by decide))
  | table =>
    have hend : Tagged "</table>\n\n".toList [] := (htag "</table>" (by decide)).append hlines
    exact h.enclosed (htag "<table>" (by decide)) hend
  | tableRow => exact h.enclosed (htag "<tr>" (by decide)) (htag "</tr>" (by decide))
  | tableCell => exact h.enclosed (htag "<td>" (by decide)) (htag "</td>" (by decide))

/-- The address of a link is written behind the text inside it. -/
theorem tagged_around {d : Node} (hd : d.Fits) (hk : d.kind ≠ .code) (nested : Bool) :
    Tagged ((rule d.kind).around nested d inner) (urls ++ d.url.toList) := by
  obtain ⟨text, htext, haround⟩ := Rule.exists_around_eq (Tagged · urls)
    (fun n _ h => tagged_byNumber h d.kind n) (fun n _ h => tagged_byLevel h d.kind n)
    (fun _ h => tagged_wrapped h hk) nested d h
  rw [haround]
  cases hurl : d.url with
  | none => simpa using htext
  | some url =>
    have hlink : d.kind = .link := hd.url.1 (by simp [hurl])
    have hopen : Tagged ['['] [] := .plain (by decide)
    have haddress : Tagged ("](".toList ++ url.toList ++ [')']) [url] := .address url .nil
    simpa [rule, link, hlink] using (hopen.append htext).append haddress

theorem tagged_finish {d : Node} (hd : d.Fits) (hk : d.kind ≠ .code) (nested : Bool) :
    Tagged ((rule d.kind).finish nested d inner) (urls ++ d.url.toList) := by
  have hinside : Tagged ((rule d.kind).inside inner) urls := by
    rw [Rule.inside]
    split
    · exact h.trim
    · exact h
  rw [Rule.finish_eq]
  split
  · next hskip =>
    rw [Bool.and_eq_true, List.isEmpty_iff] at hskip
    have hlink : d.kind ≠ .link := by
      intro hlink
      simp [hlink, rule] at hskip
    rw [hskip.2] at hinside
    rw [hinside.urls_eq_nil, hd.url_eq_none hlink]
    exact .nil
  · exact tagged_around hinside hd hk nested

end

theorem tagged_literal (k : Kind) {content : String} (h : content ≠ "" → k = .plain) :
    Tagged ((rule k).literal false content) [] := by
  rw [Rule.literal]
  split
  · exact .nil
  · next hcontent =>
    rw [h hcontent]
    exact .plain (lt_not_mem_escape _)

theorem tagged_joinRendered (parent : Kind) (files : Manifest) {ts : List Tree}
    (h : ∀ t ∈ ts, ∀ nested, Tagged (writeTree rule files nested false t) t.addresses)
    (last : Option Char) (previous : Option Kind) :
    Tagged (joinRendered last previous (writeAll rule files parent false ts))
      (ts.flatMap Tree.addresses) := by
  induction ts generalizing last previous with
  | nil => exact .nil
  | cons t ts ih =>
    simp only [List.mem_cons, forall_eq_or_imp] at h
    rw [writeAll, joinRendered, List.flatMap_cons]
    refine .append ?_ (ih h.2 _ _)
    split
    · exact .char (by decide) (h.1 _)
    · exact h.1 _

theorem tagged_writeObject (files : Manifest) (k : Kind) (id : String) :
    Tagged (writeObject rule files k id) [] := by
  unfold writeObject
  split
  · next file write hfile hwrite =>
    have himage : write = Html.imageTag := by cases k <;> cases hwrite; rfl
    have htag : IsTag (Html.imageTag file) :=
      .inr ⟨_, _, _, Html.isValue_escape _, Html.imageTag_eq file⟩
    rw [himage]
    simpa using Tagged.tag htag .nil
  · exact .nil

theorem raw_eq_false {k : Kind} (hk : k ≠ .code) : (rule k).raw = false := by
  cases k with
  | code => exact absurd rfl hk
  | _ => rfl

/-- There is no link inside a link. -/
theorem flatMap_addresses_of_link {i : Nat} {d : Node} {ts : List Tree}
    (h : (Tree.node i d ts).Everywhere Tree.Fits) (hk : d.kind = .link) :
    ts.flatMap Tree.addresses = [] := by
  rw [Tree.everywhere_node] at h
  rw [List.flatMap_eq_nil_iff]
  intro t ht
  have hfits : t.Fits := (h.2 t ht).self
  have hplain : t.kind = .plain := by simpa [hk, Kind.mayHold] using h.1.children t ht
  have hchildren : t.children = [] :=
    hfits.children_eq_nil fun c => by rw [hplain]; rfl
  have hurl : t.data.url = none := hfits.data.url_eq_none fun hlink => by
    rw [Tree.kind, hlink] at hplain
    cases hplain
  obtain ⟨n, e, us⟩ := t
  obtain rfl : us = [] := hchildren
  rw [Tree.data_node] at hurl
  rw [Tree.addresses_node, hurl]
  rfl

/-- What is written for a tree without code opens tags with tags of the format and in the addresses
of its links only. -/
theorem tagged_writeTree (files : Manifest) {t : Tree} (h : t.Everywhere Tree.Fits)
    (hcode : t.Everywhere fun s => s.kind = .code → s.data.content = "") (nested : Bool) :
    Tagged (writeTree rule files nested false t) t.addresses := by
  induction t generalizing nested with
  | node i d ts ih =>
    have hlink := flatMap_addresses_of_link h
    rw [Tree.everywhere_node] at h hcode
    have hd : d.Fits := h.1.data
    rw [Tree.addresses_node, writeTree]
    cases hid : d.objectId with
    | some id =>
      have hk : d.kind = .image := hd.object.1 (by simp [hid])
      have hts : ts = [] := h.1.children_eq_nil fun c => by rw [Tree.kind_node, hk]; rfl
      rw [hts, hd.url_eq_none (by simp [hk])]
      exact tagged_writeObject files d.kind id
    | none =>
      by_cases hk : d.kind = .code
      · -- Code without text is left out.
        have hts : ts = [] := h.1.children_eq_nil fun c => by rw [Tree.kind_node, hk]; rfl
        have hurl : d.url = none := hd.url_eq_none (by simp [hk])
        have hcontent : d.content = "" := hcode.1 hk
        simp [hts, hurl, hk, hcontent, Rule.literal, writeAll, joinRendered, Rule.finish_eq,
          Rule.inside, rule, Tagged.nil]
      · have hraw : (rule d.kind).raw = false := raw_eq_false hk
        let text := (rule d.kind).literal false d.content
        have hliteral : Tagged text [] :=
          tagged_literal d.kind fun hne => (hd.content hne).resolve_right hk
        have hchildren := tagged_joinRendered d.kind files
          (fun t ht nested => ih t ht (h.2 t ht) (hcode.2 t ht) nested) text.getLast? none
        have hfinish := tagged_finish (hliteral.append hchildren) hd hk nested
        cases hurl : d.url with
        | none => simpa [hraw, hurl] using hfinish
        | some url =>
          rw [hlink (hd.url.1 (by simp [hurl]))] at hfinish ⊢
          simpa [hraw, hurl] using hfinish

theorem convert_eq (d : Document) (o : Options) (files : Manifest) :
    (Converter.mk "md" o).convert d files =
      (d.tree o).map fun t => String.ofList (writeTree rule files false false t) := by
  have hget : Registry.standard.get "md" = .ok ⟨"md", fun k => some (rule k)⟩ := rfl
  exact Converter.convert_eq files hget rfl d

end Markdown

namespace Document

/-- The Markdown of a document without code paragraphs opens tags with its own tags and in the
addresses of links only, which are those of the document in their order. So if no address has a
less-than sign, every such sign begins a tag of the format. -/
theorem tagged_md {d : Document} {o : Options} {t : Tree} (h : d.tree o = .ok t)
    (hcode : ∀ p ∈ d.paragraphs, ¬ p.IsCode o) (files : Manifest) :
    ∃ out : String, (Converter.mk "md" o).convert d files = .ok out ∧
      Markdown.Tagged out.toList d.addresses ∧
      ((∀ url ∈ d.addresses, '<' ∉ url.toList) → ∀ before after,
        out.toList = before ++ '<' :: after →
          ∃ tag, Markdown.IsTag tag ∧ tag <+: '<' :: after) := by
  obtain ⟨haddresses, hempty⟩ := addresses_tree h hcode
  have htagged := Markdown.tagged_writeTree files (everywhere_fits h) hempty false
  rw [haddresses] at htagged
  refine ⟨String.ofList (writeTree Markdown.rule files false false t), ?_, ?_, ?_⟩
  · rw [Markdown.convert_eq, h]
    rfl
  · rwa [String.toList_ofList]
  · rw [String.toList_ofList]
    exact fun hurls before after hcs => htagged.exists_tag hurls hcs

/-- Markup in text, in a link text and in the name of a file, inside a table. -/
def tampered : Document :=
  ({} : Document)
    |>.addParagraph (.addRun {} (.withLink (.ofText "<a>") "u?a&b"))
    |>.addTable (.addRow {} [Element.cellOfText "</td>", [.ofParagraph (.addObject {} "o")]])

theorem tagged_md_tampered :
    ∃ out : String,
      (Converter.mk "md" {}).convert tampered (.ofList [("o", ⟨"\"><b>", 0, 0⟩)]) = .ok out ∧
      Markdown.Tagged out.toList ["u?a&b"] ∧
      ∀ before after, out.toList = before ++ '<' :: after →
        ∃ tag, Markdown.IsTag tag ∧ tag <+: '<' :: after := by
  obtain ⟨t, ht⟩ : ∃ t, tampered.tree {} = .ok t := ⟨_, rfl⟩
  have haddresses : tampered.addresses = ["u?a&b"] := by decide +kernel
  obtain ⟨out, hout, htagged, hall⟩ := tagged_md ht (by decide) (.ofList [("o", ⟨"\"><b>", 0, 0⟩)])
  rw [haddresses] at htagged hall
  exact ⟨out, hout, htagged, hall (by decide)⟩

/-- A link to markup. -/
def smuggling : Document :=
  ({} : Document).addParagraph (.addRun {} (.withLink (.ofText "x") "<script>"))

/-- An address can open a tag that is none of the format. -/
theorem smuggling_untagged :
    (∀ p ∈ smuggling.paragraphs, ¬ p.IsCode {}) ∧
      (Converter.mk "md" {}).convert smuggling .empty = .ok "[x](<script>)\n" ∧
      "[x](<script>)\n".toList = "[x](".toList ++ '<' :: "script>)\n".toList ∧
      ¬ ∃ tag, Markdown.IsTag tag ∧ tag <+: '<' :: "script>)\n".toList := by
  refine ⟨by decide, ?_, by decide, ?_⟩
  · rw [Markdown.convert_eq]
    decide +kernel
  · rintro ⟨tag, htag | ⟨src, height, width, -, rfl⟩, hle⟩
    · have hall : ∀ tag ∈ Markdown.tableTags, ¬ tag <+: '<' :: "script>)\n".toList := by decide
      exact hall tag htag hle
    · obtain ⟨rest, hrest⟩ := hle
      have hsecond : 'i' = 's' := (List.cons.inj (List.cons.inj hrest).2).1
      exact absurd hsecond (by decide)

end Document

end RichText
