import RichText.Document.Build
import RichText.Proofs.Lists
import RichText.Proofs.PlainText.Words
import RichText.Proofs.Tree.Levels

/-!
What the plain text of a document says. Rules trim, pad and end lines, which changes blanks only, so
up to blanks the text is what the nodes contribute in preorder: their own text, a marker in front of
every item that is not empty, and the address behind every link. The dash of an item is written with
its indentation, though, and is lost where the depth of the item has wrapped around to zero.
-/
namespace RichText

namespace Node

/-- What a node says by itself: the content of text, and the name of an image that has a file. -/
def ownText (files : Manifest) (d : Node) : List Char :=
  match d.kind with
  | .plain | .code => d.content.toList
  | .image =>
    match d.objectId.bind files.get? with
    | some file => "[image: ".toList ++ file.name.toList ++ [']']
    | none => []
  | _ => []

/-- The marker in front of an item, unless all that is below it is blank. -/
def marker (d : Node) (below : List Char) : List Char :=
  if nonblanks below = [] then []
  else
    match d.kind with
    | .unorderedItem => ['-']
    | .orderedItem => Nat.toDigits 10 d.number ++ ['.']
    | _ => []

/-- Whether the marker of an item is written: that of an unordered item at level zero is not. -/
def isMarked (d : Node) : Bool := d.kind ≠ .unorderedItem || d.level ≠ 0

theorem isMarked_eq_false_iff {d : Node} :
    d.isMarked = false ↔ d.kind = .unorderedItem ∧ d.level = 0 := by
  simp [isMarked]

/-- The address behind a link. -/
def address (d : Node) : List Char :=
  match d.kind, d.url with
  | .link, some url => '<' :: url.toList ++ ['>']
  | _, _ => []

end Node

namespace Tree

section
variable (files : Manifest) (marked : Node → Bool)

mutual
/-- What a tree contributes to the plain text, up to blanks, with the markers of some items. -/
def contribution : Tree → List Char
  | node _ d ts =>
    let below := contributionOfAll ts
    (if marked d then d.marker below else []) ++ d.ownText files ++ below ++ d.address
def contributionOfAll : List Tree → List Char
  | [] => []
  | t :: ts => contribution t ++ contributionOfAll ts
end

theorem nonblanks_contributionOfAll (ts : List Tree) :
    nonblanks (contributionOfAll files marked ts) =
      ts.flatMap fun t => nonblanks (t.contribution files marked) := by
  induction ts with
  | nil => rfl
  | cons t ts ih => rw [contributionOfAll, nonblanks_append, ih, List.flatMap_cons]

variable {files marked}

/-- A contribution is blank whatever items are marked, since there is no marker of an empty one. -/
theorem nonblanks_contribution_eq_nil {t : Tree} (h : nonblanks (t.contribution files marked) = [])
    (marked' : Node → Bool) : nonblanks (t.contribution files marked') = [] := by
  induction t with
  | node i d ts ih =>
    simp only [contribution, nonblanks_append, List.append_eq_nil_iff] at h ⊢
    obtain ⟨⟨⟨-, hown⟩, hbelow⟩, haddress⟩ := h
    have hbelow' : nonblanks (contributionOfAll files marked' ts) = [] := by
      rw [nonblanks_contributionOfAll, List.flatMap_eq_nil_iff] at hbelow ⊢
      exact fun t ht => ih t ht (hbelow t ht)
    refine ⟨⟨⟨?_, hown⟩, hbelow'⟩, haddress⟩
    rw [Node.marker, if_pos hbelow', ite_self]
    rfl

end

/-- Whether the tree is an item that contributes something, but not its marker. -/
def LosesMarker (files : Manifest) (s : Tree) : Prop :=
  s.data.isMarked = false ∧ nonblanks (contributionOfAll files (fun _ => true) s.children) ≠ []

theorem marker_contributionOfAll (d : Node) (files : Manifest) (marked marked' : Node → Bool)
    (ts : List Tree) :
    d.marker (contributionOfAll files marked ts) = d.marker (contributionOfAll files marked' ts) := by
  have hblank : nonblanks (contributionOfAll files marked ts) = [] ↔
      nonblanks (contributionOfAll files marked' ts) = [] := by
    simp only [nonblanks_contributionOfAll, List.flatMap_eq_nil_iff]
    constructor
    · intro h t ht
      exact nonblanks_contribution_eq_nil (h t ht) marked'
    · intro h t ht
      exact nonblanks_contribution_eq_nil (h t ht) marked
  simp only [Node.marker, hblank]

/-- The marker of the node at the top. -/
theorem nonblanks_top_marker (files : Manifest) (i : Nat) (d : Node) (ts : List Tree) :
    let written := if d.isMarked then d.marker (contributionOfAll files Node.isMarked ts) else []
    let due := d.marker (contributionOfAll files (fun _ => true) ts)
    (nonblanks written).Sublist (nonblanks due) ∧
      (nonblanks written = nonblanks due ↔ ¬ (node i d ts).LosesMarker files) := by
  rw [marker_contributionOfAll d files Node.isMarked fun _ => true]
  cases hd : d.isMarked with
  | true => simp [LosesMarker, hd]
  | false =>
    have hk : d.kind = .unorderedItem := (Node.isMarked_eq_false_iff.1 hd).1
    have hdash : nonblanks ['-'] = ['-'] := by decide
    by_cases hbelow : nonblanks (contributionOfAll files (fun _ => true) ts) = []
    · simp [LosesMarker, Node.marker, hbelow]
    · simp [LosesMarker, Node.marker, hd, hk, hbelow, hdash]

/-- What a tree contributes with the markers that are written is less than with all markers, unless
no item loses its marker. -/
theorem contribution_isMarked (files : Manifest) (t : Tree) :
    (nonblanks (t.contribution files Node.isMarked)).Sublist
        (nonblanks (t.contribution files fun _ => true)) ∧
      (nonblanks (t.contribution files Node.isMarked) =
          nonblanks (t.contribution files fun _ => true) ↔
        t.Everywhere fun s => ¬ s.LosesMarker files) := by
  induction t with
  | node i d ts ih =>
    obtain ⟨htop, htopeq⟩ := nonblanks_top_marker files i d ts
    obtain ⟨hbelow, hbeloweq⟩ := flatMap_sublist fun t ht => (ih t ht).1
    have hown := htop.append (List.Sublist.refl (nonblanks (d.ownText files)))
    have hall := hown.append hbelow
    simp only [contribution, nonblanks_append, nonblanks_contributionOfAll, if_true]
    refine ⟨hall.append (.refl _), ?_⟩
    rw [append_eq_append_iff_of_sublist hall (.refl _),
      append_eq_append_iff_of_sublist hown hbelow, append_eq_append_iff_of_sublist htop (.refl _),
      htopeq, hbeloweq, everywhere_node]
    simp only [and_true]
    exact and_congr_right fun _ => forall₂_congr fun t ht => (ih t ht).2

end Tree

namespace PlainText

theorem nonblanks_inside (rule : Rule) (inner : List Char) :
    nonblanks (rule.inside inner) = nonblanks inner := by
  rw [Rule.inside]
  split
  · exact nonblanks_trim inner
  · rfl

theorem nonblanks_indentation (depth : Nat) : nonblanks (indentation "  " depth) = [] := by
  rw [nonblanks_eq_nil_iff]
  intro c hc
  have hspace : c = ' ' := by simpa using mem_of_mem_indentation hc
  rw [hspace]
  decide

/-- What the rules write on both sides of a text is blank. -/
theorem nonblanks_wrapped (k : Kind) (text : List Char) :
    nonblanks ((rule k).after ((rule k).before text)) = nonblanks text := by
  have hline : isBlank '\n' := by decide
  have htab : isBlank '\t' := by decide
  have hcode : nonblanks (closeCode text) = nonblanks text := by
    rw [closeCode, nonblanks_append, nonblanks_dropEndWhile fun _ => isBlank_of_eq_newline]
    simp [nonblanks_cons, hline]
  have hrow : nonblanks (closeRow text) = nonblanks text := by
    rw [closeRow, nonblanks_append, nonblanks_dropEndWhile fun _ => isBlank_of_eq_tab]
    simp [nonblanks_cons, hline]
  cases k <;> simp [rule, Rule.enclosed, Rule.block, Rule.list, Rule.span, nonblanks_finishDocument,
    nonblanks_cons, hline, htab, hcode, hrow]

/-- The marker of an item is written in front of its text: a number by itself, and a dash with the
indentation that the level asks for. -/
theorem nonblanks_numbered {d : Node} (hd : d.Fits) {text : List Char}
    (hitem : d.kind.isItem → nonblanks text ≠ []) :
    nonblanks (
      let text := if d.number = 0 then text else (rule d.kind).byNumber d.number text
      if d.level = 0 then text else (rule d.kind).byLevel d.level text) =
      nonblanks (if d.isMarked then d.marker text else []) ++ nonblanks text := by
  have hnumber := hd.number
  have hdash : isBlank '-' = false := by decide
  have hdot : isBlank '.' = false := by decide
  have hspace : isBlank ' ' := by decide
  by_cases hlevel : d.level = 0 <;> cases hk : d.kind <;>
    simp_all [Kind.isItem, rule, Rule.block, Rule.list, Rule.enclosed, Rule.span, Node.isMarked,
      Node.marker, unorderedItem, orderedItem, itemNumber, nonblanks_indentation, nonblanks_cons]

/-- Around a text that is written, a rule puts blanks, the marker of an item in front and the
address of a link behind. -/
theorem nonblanks_around {d : Node} (hd : d.Fits) (nested : Bool) {text : List Char}
    (hitem : d.kind.isItem → nonblanks text ≠ []) :
    nonblanks ((rule d.kind).around nested d text) =
      nonblanks (if d.isMarked then d.marker text else []) ++ nonblanks text ++
        nonblanks d.address := by
  rw [Rule.around, ← nonblanks_numbered hd hitem]
  generalize (if d.level = 0 then _ else _ : List Char) = numbered
  have hwrapped : nonblanks (if (rule d.kind).wraps nested then
      (rule d.kind).after ((rule d.kind).before numbered) else numbered) = nonblanks numbered := by
    split
    · exact nonblanks_wrapped d.kind numbered
    · rfl
  generalize (if (rule d.kind).wraps nested then _ else _ : List Char) = wrapped at hwrapped ⊢
  cases hurl : d.url with
  | none => simp [Node.address, hurl, hwrapped]
  | some url =>
    have hk : d.kind = .link := hd.url.1 (by simp [hurl])
    have hspace : isBlank ' ' := by decide
    simp [rule, link, Node.address, hurl, hk, hwrapped, nonblanks_cons, hspace]

theorem nonblanks_literal {d : Node} (hd : d.Fits) (hk : d.kind ≠ .image) (raw : Bool)
    (files : Manifest) :
    nonblanks ((rule d.kind).literal raw d.content) = nonblanks (d.ownText files) := by
  have hescape : (rule d.kind).escape = fun text => text := by cases d.kind <;> rfl
  have hown : nonblanks (d.ownText files) = nonblanks d.content.toList := by
    have hcontent := hd.content
    cases hkind : d.kind <;> simp_all [Node.ownText]
  rw [hown, Rule.literal]
  split
  · next hempty => rw [hempty, String.toList_empty]
  · simp [hescape, nonblanks_flatMap_softBreak]

/-- The marker of an item depends on what is not blank. -/
theorem marker_eq {d : Node} {files : Manifest} {text below : List Char}
    (h : nonblanks text = nonblanks (d.ownText files) ++ nonblanks below) :
    d.marker text = d.marker below := by
  cases hk : d.kind <;> simp_all [Node.marker, Node.ownText]

/-- The text of a node says what the node contributes around what its children say. -/
theorem nonblanks_finish {d : Node} (hd : d.Fits) (nested : Bool) (files : Manifest)
    {inner below : List Char}
    (h : nonblanks inner = nonblanks (d.ownText files) ++ nonblanks below) :
    nonblanks ((rule d.kind).finish nested d inner) =
      nonblanks ((if d.isMarked then d.marker below else []) ++ d.ownText files ++ below ++
        d.address) := by
  have hinside : nonblanks ((rule d.kind).inside inner) =
      nonblanks (d.ownText files) ++ nonblanks below := (nonblanks_inside _ inner).trans h
  rw [Rule.finish_eq]
  split
  · next hskip =>
    rw [Bool.and_eq_true, List.isEmpty_iff] at hskip
    have hlink : d.kind ≠ .link := by
      intro hk
      simp [hk, rule] at hskip
    rw [hskip.2, nonblanks_nil, eq_comm, List.append_eq_nil_iff] at hinside
    simp [Node.marker, Node.address, hlink, hinside]
  · next hkept =>
    have hitem (hk : d.kind.isItem) : nonblanks ((rule d.kind).inside inner) ≠ [] := by
      intro hblank
      have hempty : (rule d.kind).inside inner = [] := by
        cases hkind : d.kind <;>
          simp_all [Kind.isItem, rule, Rule.inside, Rule.block, Rule.enclosed, trim_eq_nil_iff]
      cases hkind : d.kind <;> simp_all [Kind.isItem, rule, Rule.block, Rule.enclosed]
    rw [nonblanks_around hd nested hitem, marker_eq hinside, hinside]
    simp

theorem nonblanks_writeAll {files : Manifest} {ts : List Tree} (parent : Kind) (raw : Bool)
    (h : ∀ t ∈ ts, ∀ nested, nonblanks (writeTree rule files nested raw t) =
      nonblanks (t.contribution files Node.isMarked)) :
    nonblanks ((writeAll rule files parent raw ts).flatMap Rendered.text) =
      nonblanks (Tree.contributionOfAll files Node.isMarked ts) := by
  induction ts with
  | nil => rfl
  | cons t ts ih =>
    simp only [List.mem_cons, forall_eq_or_imp] at h
    rw [writeAll, List.flatMap_cons, nonblanks_append, h.1, ih h.2, Tree.contributionOfAll,
      nonblanks_append]

/-- Up to blanks, the text of a tree that fits the grammar is the contribution of the tree with the
markers that are written. -/
theorem nonblanks_writeTree (files : Manifest) {t : Tree} (h : t.Everywhere Tree.Fits)
    (nested raw : Bool) :
    nonblanks (writeTree rule files nested raw t) =
      nonblanks (t.contribution files Node.isMarked) := by
  induction t generalizing nested raw with
  | node i d ts ih =>
    rw [Tree.everywhere_node] at h
    have hd : d.Fits := h.1.data
    rw [writeTree, Tree.contribution]
    cases hid : d.objectId with
    | some id =>
      have hk : d.kind = .image := hd.object.1 (by simp [hid])
      have hts : ts = [] := h.1.children_eq_nil fun c => by rw [Tree.kind_node, hk]; rfl
      have hfile : writeObject rule files .image id = d.ownText files := by
        simp only [writeObject, rule, Node.ownText, hk, hid, Option.bind_some]
        cases files.get? id <;> rfl
      simp [hk, hfile, hts, Tree.contributionOfAll, Node.marker, Node.address]
    | none =>
      have hk : d.kind ≠ .image := by
        intro hk
        simpa [hid] using hd.object.2 hk
      refine nonblanks_finish hd nested files ?_
      rw [nonblanks_append, nonblanks_literal hd hk _ files, nonblanks_joinRendered,
        nonblanks_writeAll d.kind _ fun t ht nested => ih t ht (h.2 t ht) nested _]

end PlainText

namespace Document

/-- Where no depth has wrapped around, no item loses its marker. -/
theorem not_losesMarker {d : Document} {o : Options} {t : Tree} (h : d.tree o = .ok t)
    (hlevels : ∀ b ∈ d.bullets, b.level.toNat < 4294967295) (files : Manifest) :
    t.Everywhere fun s => ¬ s.LosesMarker files := by
  rintro s hs ⟨hlost, -⟩
  obtain ⟨hk, hzero⟩ := Node.isMarked_eq_false_iff.1 hlost
  have hitem : s.kind.isItem := by
    rw [Tree.kind, hk]
    rfl
  have hlevel := (one_le_level_iff h).2 hlevels s hs (.inr hitem)
  omega

/-- Items with a blank, with an address only, and with images of which one has a file; a list in a
table that has a blank cell; a blank span; and code. -/
def sparse : Document :=
  (({} : Document).addList "b" .bulleted |>.addList "n" .numbered)
    |>.addParagraph (.bulleted "b" 0 " \n")
    |>.addParagraph { Paragraph.addRun {} (.withLink (.ofText " ") "u") with
      bullet := some ⟨"n", 0⟩ }
    |>.addParagraph { Paragraph.addObject {} "o" with bullet := some ⟨"n", 1⟩ }
    |>.addParagraph { Paragraph.addObject {} "p" with bullet := some ⟨"n", 0⟩ }
    |>.addTable (.addRow {} [[.ofParagraph (.bulleted "b" 1 "c")], Element.cellOfText "\t"])
    |>.addParagraph (.addRun {} (.withBold (.ofText " ")))
    |>.addParagraph (.addRun {} (.inFont "x = 1\n" "Consolas"))

end Document

def Manifest.sparse : Manifest := .ofList [("o", ⟨"a b.png", 0, 0⟩)]

namespace Document

theorem contribution_sparse :
    (sparse.tree {}).map (fun t => nonblanks (t.contribution .sparse fun _ => true)) =
      .ok "1.<u>1.[image:ab.png]-cx=1".toList := by decide +kernel

/-- An item of no list, so deep that its depth wraps around. -/
def sunken : Document := ({} : Document).addParagraph (.bulleted "nope" 4294967295 "x")

end Document

end RichText
