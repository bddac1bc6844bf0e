import RichText.Proofs.Tree.Reading

/-!
The addresses of links, and documents without code. The addresses in the tree of a document without
code are those of its runs in document order, and no node of the tree has the text of code.
-/
namespace RichText

/-- The address that the run of an element links to. An empty run links to nothing. -/
def ParagraphElement.addresses (e : ParagraphElement) : List String :=
  match e.textRun with
  | some run => if run.content = "" then [] else run.url?.toList
  | none => []

/-- The addresses of all runs, by their offsets. -/
def Paragraph.addresses (p : Paragraph) : List String :=
  p.sortedElements.flatMap ParagraphElement.addresses

/-- Whether a paragraph becomes code. -/
def Paragraph.IsCode (p : Paragraph) (o : Options) : Prop :=
  p.bullet = none ∧ p.style.headingLevel = 0 ∧ p.isInFont o.codeFont

instance (p : Paragraph) (o : Options) : Decidable (p.IsCode o) :=
  inferInstanceAs (Decidable (_ ∧ _ ∧ _))

/-- The addresses of all paragraphs in document order. -/
def Document.addresses (d : Document) : List String := d.paragraphs.flatMap Paragraph.addresses

/-- The addresses of all nodes in preorder. -/
def Tree.addresses (t : Tree) : List String := t.read fun s => s.data.url.toList

/-- The text of all code in preorder. -/
def Tree.codeText (t : Tree) : List Char :=
  t.read fun s => if s.kind = .code then s.data.content.toList else []

def Inline.addresses : Inline → List String
  | .text _ _ url _ => url.toList
  | .image _ => []

namespace Block

/-- The addresses in a block that is not a table. -/
def addresses : Block → List String
  | .paragraph is | .heading _ is => is.flatMap Inline.addresses
  | .item i => i.inlines.flatMap Inline.addresses
  | .code _ | .table _ => []

/-- The text of a block that is code. -/
def codeText : Block → List Char
  | .code content => content.toList
  | _ => []

end Block

theorem Paragraph.addresses_inlines (p : Paragraph) :
    p.inlines.flatMap Inline.addresses = p.addresses := by
  rw [inlines, addresses]
  induction p.sortedElements with
  | nil => rfl
  | cons e es ih =>
    rw [List.flatMap_cons, ← ih, List.filterMap_cons]
    cases hr : e.textRun with
    | none =>
      cases ho : e.object <;>
        simp [Inline.ofElement?, hr, ho, Inline.addresses, ParagraphElement.addresses]
    | some run =>
      by_cases hc : run.content = "" <;>
        simp [Inline.ofElement?, hr, hc, Inline.addresses, ParagraphElement.addresses]

namespace Block
variable {o : Options} {lists : Catalog ListStyle}

theorem of_not_isCode {seen seen' : List Bullet} {p : Paragraph} {b : Block}
    (h : ofParagraph o lists seen p = .ok (b, seen')) (hp : ¬ p.IsCode o) :
    b.addresses = p.addresses ∧ b.codeText = [] := by
  obtain ⟨u, ordered, -, -, -, rfl⟩ | ⟨hu, -, ⟨-, rfl⟩ | ⟨hl, hfont, rfl⟩ | ⟨-, -, rfl⟩⟩ :=
    ofParagraph_cases h
  · exact ⟨p.addresses_inlines, rfl⟩
  · exact ⟨p.addresses_inlines, rfl⟩
  · exact absurd ⟨hu, hl, hfont⟩ hp
  · exact ⟨p.addresses_inlines, rfl⟩

theorem addresses_ofParagraphs {seen seen' : List Bullet} {ps : List Paragraph} {bs : List Block}
    (h : ofParagraphs o lists seen ps = .ok (bs, seen')) (hps : ∀ p ∈ ps, ¬ p.IsCode o) :
    bs.flatMap addresses = ps.flatMap Paragraph.addresses ∧ bs.flatMap codeText = [] := by
  induction ps generalizing seen bs with
  | nil =>
    cases h
    exact ⟨rfl, rfl⟩
  | cons p ps ih =>
    obtain ⟨b, seen₁, cs, hp, hcs, rfl⟩ := ofParagraphs_cons_ok h
    simp only [List.mem_cons, forall_eq_or_imp] at hps
    obtain ⟨haddresses, hcode⟩ := of_not_isCode hp hps.1
    obtain ⟨hrest, hcodes⟩ := ih hcs hps.2
    simp only [List.flatMap_cons, haddresses, hcode, hrest, hcodes, List.append_nil, and_self]

end Block

namespace Tree

theorem addresses_node (i : Nat) (d : Node) (ts : List Tree) :
    (node i d ts).addresses = d.url.toList ++ ts.flatMap addresses := by
  rw [addresses, read_node]
  rfl

theorem addresses_inline (id : Nat) (i : Inline) : (i.tree id).addresses = i.addresses := by
  cases i with
  | text bold italic url content =>
    cases bold <;> cases italic <;> cases url <;>
      simp [Inline.tree, Inline.spans, chain, addresses_node, Inline.addresses]
  | image objectId => simp [Inline.tree, addresses_node, Inline.addresses]

theorem addresses_line (id : Nat) (d : Node) (is : List Inline) (hd : d.url = none) :
    (node id d (Inline.trees (id + 1) is)).addresses = is.flatMap Inline.addresses := by
  have hinlines (n : Nat) (is : List Inline) :
      (Inline.trees n is).flatMap addresses = is.flatMap Inline.addresses := by
    induction is generalizing n with
    | nil => rfl
    | cons i is ih => rw [Inline.trees, List.flatMap_cons, addresses_inline, ih, List.flatMap_cons]
  rw [addresses_node, hd, hinlines]
  rfl

theorem reads_addresses : Reads (fun t : Tree => t.data.url.toList) Block.addresses where
  holder _ _ _ _ _ := rfl
  blind _ _ _ _ _ := rfl
  paragraph id is := addresses_line id _ is rfl
  heading id level is := addresses_line id _ is rfl
  code id content := by simp [Block.addresses]
  join id d content _ := by simp [Block.addresses]
  item id i := addresses_line id _ i.inlines rfl

theorem codeText_line (id : Nat) (d : Node) (is : List Inline) (hd : d.kind ≠ .code) :
    (node id d (Inline.trees (id + 1) is)).codeText = [] := by
  rw [codeText, read_node, kind_node, if_neg hd]
  refine flatMap_trees_eq_nil (fun t ht => if_neg ?_) (id + 1) is
  intro hk
  rw [hk] at ht
  cases ht

theorem reads_codeText : Reads
    (fun t : Tree => if t.kind = .code then t.data.content.toList else []) Block.codeText where
  holder id kind level ts hk := by cases kind <;> simp_all [Kind.isHolder]
  blind _ _ _ _ _ := rfl
  paragraph id is := codeText_line id _ is (by simp)
  heading id level is := codeText_line id _ is (by simp)
  code id content := by simp [Block.codeText]
  join id d content hd := by simp [hd, Block.codeText]
  item id i := codeText_line id _ i.inlines (by cases h : i.ordered <;> simp [ListItem.itemKind, h])

end Tree

/-- The tree of a document without code has the addresses of the document and no text of code. -/
theorem Document.addresses_tree {d : Document} {o : Options} {t : Tree} (h : d.tree o = .ok t)
    (hcode : ∀ p ∈ d.paragraphs, ¬ p.IsCode o) :
    t.addresses = d.addresses ∧ t.Everywhere fun s => s.kind = .code → s.data.content = "" := by
  obtain ⟨bs, hbs, rfl⟩ := tree_eq_ok h
  obtain ⟨seen, hps⟩ := leaves_blocks hbs
  obtain ⟨haddresses, hcodes⟩ := Block.addresses_ofParagraphs hps hcode
  refine ⟨?_, fun s hs hk => ?_⟩
  · rw [Tree.addresses, Tree.reads_addresses.ofBlocks, haddresses, addresses]
  · rw [← Tree.reads_codeText.ofBlocks, Tree.read, List.flatMap_eq_nil_iff] at hcodes
    simpa [hk] using hcodes s hs

end RichText
