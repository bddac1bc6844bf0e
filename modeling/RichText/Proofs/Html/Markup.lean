import RichText.Format.Html
import RichText.Proofs.Text.Nonblank

/-!
The markup that the HTML format writes: text without the characters of markup, entities, balanced
elements and images. Whoever drops the tags and then decodes the entities once reads the text that
the markup shows. Trimming markup leaves markup, since blanks at its ends are text.
-/
namespace RichText.Html

/-- The entities, each with the character that it stands for. -/
def entities : List (List Char × Char) :=
  [("&amp;".toList, '&'), ("&lt;".toList, '<'), ("&gt;".toList, '>'), ("&#34;".toList, '"'),
   ("&#39;".toList, '\'')]

/-- The characters of markup, which text shows by entities only. -/
def marks : List Char := ['&', '<', '>', '"', '\'']

/-- An attribute value that ends with its quote and opens no tag. -/
def IsValue (v : List Char) : Prop := '"' ∉ v ∧ '<' ∉ v ∧ '>' ∉ v

/-- The elements that have content. -/
inductive Tag where
  | p | b | i | a (href : List Char) | h (level : Nat) | pre | code
  | ul | ol | li (value : Option Nat) | table | tr | td

/-- An attribute inside a tag. -/
def field (name : String) (value : List Char) : List Char :=
  ' ' :: name.toList ++ '=' :: '"' :: value ++ ['"']

namespace Tag

def name : Tag → List Char
  | p => "p".toList
  | b => "b".toList
  | i => "i".toList
  | a _ => "a".toList
  | h level => 'h' :: Nat.toDigits 10 level
  | pre => "pre".toList
  | code => "code".toList
  | ul => "ul".toList
  | ol => "ol".toList
  | li _ => "li".toList
  | table => "table".toList
  | tr => "tr".toList
  | td => "td".toList

def attributes : Tag → List Char
  | a href => field "href" href
  | li (some value) => field "value" (Nat.toDigits 10 value)
  | _ => []

def opening (t : Tag) : List Char := '<' :: (t.name ++ t.attributes) ++ ['>']

def closing (t : Tag) : List Char := '<' :: '/' :: t.name ++ ['>']

/-- Headings have a level from one to six, and a link target is an attribute value. -/
def Valid : Tag → Prop
  | a href => IsValue href
  | h level => 1 ≤ level ∧ level ≤ 6
  | _ => True

/-- Whether the element is left out unless there is something but blanks in it. -/
def needsContent : Tag → Bool
  | p | b | i | h _ | ul | ol | li _ => true
  | _ => false

end Tag

/-- What the tag of an image says. -/
def imageTagBody (src : List Char) (height width : Nat) : List Char :=
  "img".toList ++ field "src" src ++ " height=".toList ++ Nat.toDigits 10 height ++
    " width=".toList ++ Nat.toDigits 10 width ++ " /".toList

/-- The element of an image, which has no content. -/
def voidImage (src : List Char) (height width : Nat) : List Char :=
  '<' :: (imageTagBody src height width ++ ['>'])

/-- Markup, and the text that it shows. -/
inductive Markup : List Char → List Char → Prop where
  | nil : Markup [] []
  | char {c : Char} : c ∉ marks → Markup [c] [c]
  | entity {e : List Char} {c : Char} : (e, c) ∈ entities → Markup e [c]
  | element {t : Tag} {inner text : List Char} : t.Valid →
      (t.needsContent → nonblanks inner ≠ []) → Markup inner text →
      Markup (t.opening ++ inner ++ t.closing) text
  | image {src : List Char} (height width : Nat) : IsValue src →
      Markup (voidImage src height width) []
  | append {as bs text text' : List Char} : Markup as text → Markup bs text' →
      Markup (as ++ bs) (text ++ text')

/-! ### Reading markup -/

mutual
/-- The text without its tags. -/
def stripTags : List Char → List Char
  | [] => []
  | c :: cs => if c = '<' then skipTag cs else c :: stripTags cs
/-- The text after the end of a tag, without its tags. -/
def skipTag : List Char → List Char
  | [] => []
  | c :: cs => if c = '>' then stripTags cs else skipTag cs
end

/-- The text with each entity replaced by its character, once and from left to right. -/
def decodeEntities : List Char → List Char
  | '&' :: 'a' :: 'm' :: 'p' :: ';' :: cs => '&' :: decodeEntities cs
  | '&' :: 'l' :: 't' :: ';' :: cs => '<' :: decodeEntities cs
  | '&' :: 'g' :: 't' :: ';' :: cs => '>' :: decodeEntities cs
  | '&' :: '#' :: '3' :: '4' :: ';' :: cs => '"' :: decodeEntities cs
  | '&' :: '#' :: '3' :: '9' :: ';' :: cs => '\'' :: decodeEntities cs
  | c :: cs => c :: decodeEntities cs
  | [] => []

theorem stripTags_tag {body : List Char} (h : '>' ∉ body) (rest : List Char) :
    stripTags ('<' :: (body ++ '>' :: rest)) = stripTags rest := by
  have hskip : skipTag (body ++ '>' :: rest) = stripTags rest := by
    induction body with
    | nil => simp [skipTag]
    | cons c cs ih =>
      simp only [List.mem_cons, not_or] at h
      rw [List.cons_append, skipTag, if_neg (Ne.symm h.1), ih h.2]
  rw [stripTags, if_pos rfl, hskip]

theorem stripTags_cons {c : Char} (h : c ≠ '<') (cs : List Char) :
    stripTags (c :: cs) = c :: stripTags cs := by rw [stripTags, if_neg h]

theorem decodeEntities_cons {c : Char} (h : c ≠ '&') (cs : List Char) :
    decodeEntities (c :: cs) = c :: decodeEntities cs := by
  rw [decodeEntities.eq_def]
  split <;> simp_all

theorem decodeEntities_entity {e : List Char} {c : Char} (h : (e, c) ∈ entities)
    (rest : List Char) : decodeEntities (e ++ rest) = c :: decodeEntities rest := by
  simp only [entities, List.mem_cons, Prod.mk.injEq, List.not_mem_nil, or_false] at h
  rcases h with ⟨rfl, rfl⟩ | ⟨rfl, rfl⟩ | ⟨rfl, rfl⟩ | ⟨rfl, rfl⟩ | ⟨rfl, rfl⟩ <;> rfl

theorem stripTags_entity {e : List Char} {c : Char} (h : (e, c) ∈ entities) (rest : List Char) :
    stripTags (e ++ rest) = e ++ stripTags rest := by
  simp only [entities, List.mem_cons, Prod.mk.injEq, List.not_mem_nil, or_false] at h
  rcases h with ⟨rfl, rfl⟩ | ⟨rfl, rfl⟩ | ⟨rfl, rfl⟩ | ⟨rfl, rfl⟩ | ⟨rfl, rfl⟩ <;> rfl

theorem not_mem_digits {c : Char} (hc : c.isDigit = false) (n : Nat) : c ∉ Nat.toDigits 10 n := by
  intro h
  have hd : c.isDigit := Nat.isDigit_of_mem_toDigits (by decide) (by decide) h
  simp [hc] at hd

theorem gt_not_mem_digits (n : Nat) : '>' ∉ Nat.toDigits 10 n := not_mem_digits (by decide) n

theorem gt_not_mem_field {name : String} {value : List Char} (hname : '>' ∉ name.toList)
    (hvalue : '>' ∉ value) : '>' ∉ field name value := by
  simp [field, hname, hvalue]

namespace Tag

theorem gt_not_mem_name (t : Tag) : '>' ∉ t.name := by
  cases t with
  | h level => exact fun h => gt_not_mem_digits level (List.mem_of_ne_of_mem (by decide) h)
  | _ => simp only [name]; decide

theorem gt_not_mem_attributes {t : Tag} (ht : t.Valid) : '>' ∉ t.attributes := by
  cases t with
  | a href => exact gt_not_mem_field (by decide) ht.2.2
  | li value =>
    cases value with
    | none => exact List.not_mem_nil
    | some value => exact gt_not_mem_field (by decide) (gt_not_mem_digits value)
  | _ => exact List.not_mem_nil

theorem stripTags_opening {t : Tag} (ht : t.Valid) (rest : List Char) :
    stripTags (t.opening ++ rest) = stripTags rest := by
  have hbody : '>' ∉ t.name ++ t.attributes := by
    simp [gt_not_mem_name, gt_not_mem_attributes ht]
  simpa [opening] using stripTags_tag hbody rest

theorem stripTags_closing (t : Tag) (rest : List Char) :
    stripTags (t.closing ++ rest) = stripTags rest := by
  have hbody : '>' ∉ '/' :: t.name := by simp [gt_not_mem_name]
  simpa [closing] using stripTags_tag hbody rest

end Tag

theorem gt_not_mem_imageTagBody {src : List Char} (h : IsValue src) (height width : Nat) :
    '>' ∉ imageTagBody src height width := by
  have hsrc : '>' ∉ field "src" src := gt_not_mem_field (by decide) h.2.2
  unfold imageTagBody
  simp [hsrc, gt_not_mem_digits]

theorem stripTags_voidImage {src : List Char} (h : IsValue src) (height width : Nat)
    (rest : List Char) : stripTags (voidImage src height width ++ rest) = stripTags rest := by
  simpa [voidImage] using stripTags_tag (gt_not_mem_imageTagBody h height width) rest

/-- Without its tags, markup is text with entities for the text that it shows. -/
theorem Markup.exists_stripTags {html text : List Char} (h : Markup html text) :
    ∃ shown, (∀ rest, stripTags (html ++ rest) = shown ++ stripTags rest) ∧
      ∀ rest, decodeEntities (shown ++ rest) = text ++ decodeEntities rest := by
  induction h with
  | nil => exact ⟨[], fun _ => rfl, fun _ => rfl⟩
  | @char c hc =>
    simp only [marks, List.mem_cons, not_or] at hc
    exact ⟨[c], fun rest => stripTags_cons hc.2.1 rest, fun rest => decodeEntities_cons hc.1 rest⟩
  | @entity e c he => exact ⟨e, stripTags_entity he, decodeEntities_entity he⟩
  | element ht _ _ ih =>
    obtain ⟨shown, hstrip, hdecode⟩ := ih
    refine ⟨shown, fun rest => ?_, hdecode⟩
    rw [List.append_assoc, List.append_assoc, Tag.stripTags_opening ht, hstrip,
      Tag.stripTags_closing]
  | image height width hsrc =>
    exact ⟨[], fun rest => stripTags_voidImage hsrc height width rest, fun _ => rfl⟩
  | append _ _ iha ihb =>
    obtain ⟨shown, hstrip, hdecode⟩ := iha
    obtain ⟨shown', hstrip', hdecode'⟩ := ihb
    refine ⟨shown ++ shown', fun rest => ?_, fun rest => ?_⟩
    · rw [List.append_assoc, hstrip, hstrip', List.append_assoc]
    · rw [List.append_assoc, hdecode, hdecode', List.append_assoc]

/-- Markup without its tags, with its entities decoded once, is the text that it shows. -/
theorem Markup.decodeEntities_stripTags {html text : List Char} (h : Markup html text) :
    decodeEntities (stripTags html) = text := by
  obtain ⟨shown, hstrip, hdecode⟩ := h.exists_stripTags
  have hs := hstrip []
  have hd := hdecode []
  simp only [List.append_nil, stripTags, decodeEntities] at hs hd
  rw [hs, hd]

theorem Markup.text_eq_nil {text : List Char} (h : Markup [] text) : text = [] :=
  h.decodeEntities_stripTags.symm

/-! ### Trimming markup -/

theorem eq_cons_of_entity {e : List Char} {c : Char} (h : (e, c) ∈ entities) :
    ∃ cs, e = '&' :: cs := by
  have hall : ∀ x ∈ entities, x.1.head? = some '&' := by decide
  exact List.head?_eq_some_iff.1 (hall _ h)

theorem eq_concat_of_entity {e : List Char} {c : Char} (h : (e, c) ∈ entities) :
    ∃ cs, e = cs ++ [';'] := by
  have hall : ∀ x ∈ entities, x.1.getLast? = some ';' := by decide
  exact List.getLast?_eq_some_iff.1 (hall _ h)

section trimming
variable {p : Char → Bool} (hp : ∀ c, p c → isBlank c)
include hp

theorem dropWhile_of_not_blank {c : Char} (hc : isBlank c = false) (cs : List Char) :
    (c :: cs).dropWhile p = c :: cs := by
  cases h : p c with
  | true => simp [hp c h] at hc
  | false => simp [h]

theorem dropEndWhile_of_not_blank {c : Char} (hc : isBlank c = false) (cs : List Char) :
    dropEndWhile p (cs ++ [c]) = cs ++ [c] := by
  cases h : p c with
  | true => simp [hp c h] at hc
  | false => simp [dropEndWhile_concat, h]

theorem Markup.dropWhile {html text : List Char} (h : Markup html text) :
    ∃ text', Markup (html.dropWhile p) text' ∧ nonblanks text' = nonblanks text := by
  have hlt : isBlank '<' = false := by decide
  induction h with
  | nil => exact ⟨[], .nil, rfl⟩
  | @char c hc =>
    cases hpc : p c with
    | true => exact ⟨[], by simpa [hpc] using Markup.nil, by simp [nonblanks_cons, hp c hpc]⟩
    | false => exact ⟨[c], by simpa [hpc] using Markup.char hc, rfl⟩
  | @entity e c he =>
    obtain ⟨cs, rfl⟩ := eq_cons_of_entity he
    rw [dropWhile_of_not_blank hp (by decide)]
    exact ⟨[c], .entity he, rfl⟩
  | @element t inner text ht hn hi _ =>
    have hcons : t.opening ++ inner ++ t.closing =
        '<' :: (t.name ++ t.attributes ++ ['>'] ++ inner ++ t.closing) := by simp [Tag.opening]
    rw [hcons, dropWhile_of_not_blank hp hlt, ← hcons]
    exact ⟨text, .element ht hn hi, rfl⟩
  | @image src height width hsrc =>
    have himage : (voidImage src height width).dropWhile p = voidImage src height width :=
      dropWhile_of_not_blank hp hlt _
    rw [himage]
    exact ⟨[], .image height width hsrc, rfl⟩
  | @append as bs text text' ha hb iha ihb =>
    obtain ⟨shown, hs, hns⟩ := iha
    obtain ⟨shown', hs', hns'⟩ := ihb
    rw [List.dropWhile_append]
    cases he : as.dropWhile p with
    | nil =>
      rw [he] at hs
      rw [hs.text_eq_nil] at hns
      exact ⟨shown', hs', by rw [nonblanks_append, ← hns, hns']; rfl⟩
    | cons c cs =>
      rw [he] at hs
      exact ⟨shown ++ text', hs.append hb, by rw [nonblanks_append, nonblanks_append, hns]⟩

theorem Markup.dropEndWhile {html text : List Char} (h : Markup html text) :
    ∃ text', Markup (dropEndWhile p html) text' ∧ nonblanks text' = nonblanks text := by
  have hgt : isBlank '>' = false := by decide
  induction h with
  | nil => exact ⟨[], .nil, rfl⟩
  | @char c hc =>
    cases hpc : p c with
    | true =>
      refine ⟨[], ?_, by simp [nonblanks_cons, hp c hpc]⟩
      simpa [RichText.dropEndWhile, hpc] using Markup.nil
    | false =>
      refine ⟨[c], ?_, rfl⟩
      simpa [RichText.dropEndWhile, hpc] using Markup.char hc
  | @entity e c he =>
    obtain ⟨cs, rfl⟩ := eq_concat_of_entity he
    rw [dropEndWhile_of_not_blank hp (by decide)]
    exact ⟨[c], .entity he, rfl⟩
  | @element t inner text ht hn hi _ =>
    have hconcat : t.opening ++ inner ++ t.closing =
        t.opening ++ inner ++ '<' :: '/' :: t.name ++ ['>'] := by simp [Tag.closing]
    rw [hconcat, dropEndWhile_of_not_blank hp hgt, ← hconcat]
    exact ⟨text, .element ht hn hi, rfl⟩
  | @image src height width hsrc =>
    have hconcat : voidImage src height width =
        '<' :: imageTagBody src height width ++ ['>'] := rfl
    rw [hconcat, dropEndWhile_of_not_blank hp hgt, ← hconcat]
    exact ⟨[], .image height width hsrc, rfl⟩
  | @append as bs text text' ha hb iha ihb =>
    obtain ⟨shown, hs, hns⟩ := iha
    obtain ⟨shown', hs', hns'⟩ := ihb
    rw [dropEndWhile_append]
    split
    · rename_i he
      rw [he] at hs'
      rw [hs'.text_eq_nil] at hns'
      exact ⟨shown, hs, by rw [nonblanks_append, ← hns', hns]; simp⟩
    · exact ⟨text ++ shown', ha.append hs', by rw [nonblanks_append, nonblanks_append, hns']⟩

end trimming

end RichText.Html
