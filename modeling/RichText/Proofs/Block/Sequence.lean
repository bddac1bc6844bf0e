import RichText.Block.OfDocument

/-!
Bodies read straight through. The paragraphs of a body stand in document order, whatever tables
they are in, and so do its blocks without the tables. Making blocks of a body makes blocks of its
paragraphs one after the other, so that what holds along a sequence of paragraphs holds at any
depth of nesting.
-/
namespace RichText

theorem bind_eq_ok {ε α β : Type} {x : Except ε α} {f : α → Except ε β} {b : β} :
    (x >>= f) = .ok b ↔ ∃ a, x = .ok a ∧ f a = .ok b := by
  cases x <;> simp [bind, Except.bind]

namespace Element

mutual
/-- The paragraphs of an element: its own, and then those of its table, row by row. -/
def paragraphs : Element → List Paragraph
  | mk _ _ p none => p.toList
  | mk _ _ p (some ⟨_, _, rows⟩) => p.toList ++ paragraphsOfRows rows
def paragraphsOfAll : List Element → List Paragraph
  | [] => []
  | e :: es => paragraphs e ++ paragraphsOfAll es
def paragraphsOfRows : List (List (List Element)) → List Paragraph
  | [] => []
  | row :: rows => paragraphsOfCells row ++ paragraphsOfRows rows
def paragraphsOfCells : List (List Element) → List Paragraph
  | [] => []
  | cell :: cells => paragraphsOfAll cell ++ paragraphsOfCells cells
end

end Element

/-- All paragraphs in document order. -/
def Document.paragraphs (d : Document) : List Paragraph := Element.paragraphsOfAll d.body

namespace Block

mutual
/-- The block itself, or the blocks in its cells. -/
def leaves : Block → List Block
  | table rows => leavesOfRows rows
  | b => [b]
def leavesOfAll : List Block → List Block
  | [] => []
  | b :: bs => leaves b ++ leavesOfAll bs
def leavesOfRows : List (List (List Block)) → List Block
  | [] => []
  | row :: rows => leavesOfCells row ++ leavesOfRows rows
def leavesOfCells : List (List Block) → List Block
  | [] => []
  | cell :: cells => leavesOfAll cell ++ leavesOfCells cells
end

theorem leavesOfAll_append (bs cs : List Block) :
    leavesOfAll (bs ++ cs) = leavesOfAll bs ++ leavesOfAll cs := by
  induction bs with
  | nil => rfl
  | cons b bs ih => simp [leavesOfAll, ih]

variable {o : Options} {lists : Catalog ListStyle}

/-- All that a paragraph can become, with the bullets up to it. -/
theorem ofParagraph_cases {seen seen' : List Bullet} {p : Paragraph} {b : Block}
    (h : ofParagraph o lists seen p = .ok (b, seen')) :
    (∃ u ordered, p.bullet = some u ∧ u.isOrdered o lists = .ok ordered ∧ seen' = u :: seen ∧
      b = .item ⟨ordered, u.depth, seen.count u + 1, p.inlines⟩) ∨
    p.bullet = none ∧ seen' = seen ∧
      (p.style.headingLevel ≠ 0 ∧ b = .heading p.style.headingLevel p.inlines ∨
       p.style.headingLevel = 0 ∧ p.isInFont o.codeFont = true ∧ b = .code p.sortedText ∨
       p.style.headingLevel = 0 ∧ p.isInFont o.codeFont = false ∧ b = .paragraph p.inlines) := by
  unfold ofParagraph at h
  cases hp : p.bullet with
  | some u =>
    rw [hp] at h
    cases ho : u.isOrdered o lists with
    | error e => simp [ho, bind, Except.bind] at h
    | ok ordered =>
      simp only [ho, bind, Except.bind, pure, Except.pure, Except.ok.injEq, Prod.mk.injEq] at h
      exact .inl ⟨u, ordered, rfl, ho, h.2.symm, h.1.symm⟩
  | none =>
    simp only [hp] at h
    split at h
    · cases h
      exact .inr ⟨rfl, rfl, .inl ⟨‹_›, rfl⟩⟩
    · have hl : p.style.headingLevel = 0 := by omega
      split at h
      · cases h
        exact .inr ⟨rfl, rfl, .inr (.inl ⟨hl, ‹_›, rfl⟩)⟩
      · cases h
        exact .inr ⟨rfl, rfl, .inr (.inr ⟨hl, Bool.eq_false_iff.2 ‹_›, rfl⟩)⟩

/-- The block of a paragraph is not a table. -/
theorem leaves_ofParagraph {seen seen' : List Bullet} {p : Paragraph} {b : Block}
    (h : ofParagraph o lists seen p = .ok (b, seen')) : b.leaves = [b] := by
  obtain ⟨u, ordered, -, -, -, rfl⟩ | ⟨-, -, ⟨-, rfl⟩ | ⟨-, -, rfl⟩ | ⟨-, -, rfl⟩⟩ :=
    ofParagraph_cases h <;> rfl

variable (o lists)

/-- The blocks of paragraphs one after the other, given the bullets before them. -/
def ofParagraphs (seen : List Bullet) :
    List Paragraph → Except Error (List Block × List Bullet)
  | [] => .ok ([], seen)
  | p :: ps => do
    let (b, seen) ← ofParagraph o lists seen p
    let (bs, seen) ← ofParagraphs seen ps
    return (b :: bs, seen)

variable {o lists} in
theorem ofParagraphs_cons_ok {seen seen' : List Bullet} {p : Paragraph} {ps : List Paragraph}
    {bs : List Block} (h : ofParagraphs o lists seen (p :: ps) = .ok (bs, seen')) :
    ∃ b seen₁ cs, ofParagraph o lists seen p = .ok (b, seen₁) ∧
      ofParagraphs o lists seen₁ ps = .ok (cs, seen') ∧ bs = b :: cs := by
  simp only [ofParagraphs, bind_eq_ok] at h
  obtain ⟨⟨b, seen₁⟩, hp, ⟨cs, seen₂⟩, hps, hr⟩ := h
  cases hr
  exact ⟨b, seen₁, cs, hp, hps, rfl⟩

variable {o lists} in
theorem exists_of_mem_ofParagraphs {seen seen' : List Bullet} {ps : List Paragraph}
    {bs : List Block} (h : ofParagraphs o lists seen ps = .ok (bs, seen')) {b : Block}
    (hb : b ∈ bs) : ∃ p ∈ ps, ∃ before upTo, ofParagraph o lists before p = .ok (b, upTo) := by
  induction ps generalizing seen bs with
  | nil =>
    cases h
    simp at hb
  | cons p ps ih =>
    obtain ⟨c, seen₁, cs, hp, hps, rfl⟩ := ofParagraphs_cons_ok h
    rcases List.mem_cons.1 hb with rfl | hb
    · exact ⟨p, by simp, seen, seen₁, hp⟩
    · obtain ⟨q, hq, hqb⟩ := ih hps hb
      exact ⟨q, by simp [hq], hqb⟩

theorem ofParagraphs_append (seen : List Bullet) (ps qs : List Paragraph) :
    ofParagraphs o lists seen (ps ++ qs) = (do
      let (bs, seen) ← ofParagraphs o lists seen ps
      let (cs, seen) ← ofParagraphs o lists seen qs
      return (bs ++ cs, seen)) := by
  induction ps generalizing seen with
  | nil =>
    change _ = (fun r => ([] ++ r.1, r.2)) <$> ofParagraphs o lists seen qs
    simp
  | cons p ps ih => simp [ofParagraphs, ih]

theorem ofElements_append (seen : List Bullet) (es fs : List Element) :
    ofElements o lists seen (es ++ fs) = (do
      let (bs, seen) ← ofElements o lists seen es
      let (cs, seen) ← ofElements o lists seen fs
      return (bs ++ cs, seen)) := by
  induction es generalizing seen with
  | nil =>
    change _ = (fun r => ([] ++ r.1, r.2)) <$> ofElements o lists seen fs
    simp
  | cons e es ih => simp [ofElements, ih]

theorem map_ofParagraph? (seen : List Bullet) (p : Option Paragraph) :
    (fun r => (leavesOfAll r.1, r.2)) <$> ofParagraph? o lists seen p =
      ofParagraphs o lists seen p.toList := by
  cases p with
  | none => rfl
  | some p =>
    simp only [ofParagraph?, Option.toList, ofParagraphs]
    cases h : ofParagraph o lists seen p with
    | error e => rfl
    | ok r => simp [leavesOfAll, leaves_ofParagraph h, bind, Except.bind]

mutual
theorem map_ofElement (seen : List Bullet) : ∀ e : Element,
    (fun r => (leavesOfAll r.1, r.2)) <$> ofElement o lists seen e =
      ofParagraphs o lists seen e.paragraphs
  | .mk _ _ p none => map_ofParagraph? o lists seen p
  | .mk _ _ p (some ⟨_, _, rows⟩) => by
    simp only [ofElement, Element.paragraphs, ofParagraphs_append, ← map_ofParagraph?,
      ← map_ofRows _ rows]
    simp [leavesOfAll_append, leavesOfAll, leaves]
/-- The blocks of a body without the tables are those of its paragraphs, and fail where they do. -/
theorem map_ofElements (seen : List Bullet) : ∀ es : List Element,
    (fun r => (leavesOfAll r.1, r.2)) <$> ofElements o lists seen es =
      ofParagraphs o lists seen (Element.paragraphsOfAll es)
  | [] => rfl
  | e :: es => by
    simp only [ofElements, Element.paragraphsOfAll, ofParagraphs_append, ← map_ofElement _ e,
      ← map_ofElements _ es]
    simp [leavesOfAll_append]
theorem map_ofRows (seen : List Bullet) : ∀ rows : List (List (List Element)),
    (fun r => (leavesOfRows r.1, r.2)) <$> ofRows o lists seen rows =
      ofParagraphs o lists seen (Element.paragraphsOfRows rows)
  | [] => rfl
  | row :: rows => by
    simp only [ofRows, Element.paragraphsOfRows, ofParagraphs_append, ← map_ofCells _ row,
      ← map_ofRows _ rows]
    simp [leavesOfRows]
theorem map_ofCells (seen : List Bullet) : ∀ cells : List (List Element),
    (fun r => (leavesOfCells r.1, r.2)) <$> ofCells o lists seen cells =
      ofParagraphs o lists seen (Element.paragraphsOfCells cells)
  | [] => rfl
  | cell :: cells => by
    simp only [ofCells, Element.paragraphsOfCells, ofParagraphs_append, ← map_ofElements _ cell,
      ← map_ofCells _ cells]
    simp [leavesOfCells]
end

end Block

theorem Document.blocks_eq_ok {d : Document} {o : Options} {bs : List Block}
    (h : d.blocks o = .ok bs) : ∃ seen, Block.ofElements o d.lists [] d.body = .ok (bs, seen) := by
  unfold blocks at h
  cases he : Block.ofElements o d.lists [] d.body with
  | error e => simp [he, Except.map] at h
  | ok r =>
    simp only [he, Except.map, Except.ok.injEq] at h
    exact ⟨r.2, by rw [← h]⟩

/-- The blocks of a document without its tables come from its paragraphs one after the other. -/
theorem Document.leaves_blocks {d : Document} {o : Options} {bs : List Block}
    (h : d.blocks o = .ok bs) :
    ∃ seen, Block.ofParagraphs o d.lists [] d.paragraphs = .ok (Block.leavesOfAll bs, seen) := by
  obtain ⟨seen, hes⟩ := blocks_eq_ok h
  have hmap := Block.map_ofElements o d.lists [] d.body
  rw [hes] at hmap
  exact ⟨seen, hmap.symm⟩

/-- The blocks of the beginning of a body are the first blocks of the body. If there is an error in
the beginning, it is the error of the whole. -/
theorem Document.blocks_of_longer_body {d d' : Document} (hbody : d.body <+: d'.body)
    (hlists : d'.lists = d.lists) (o : Options) :
    (∀ e, d.blocks o = .error e → d'.blocks o = .error e) ∧
      ∀ bs', d'.blocks o = .ok bs' → ∃ bs cs, d.blocks o = .ok bs ∧ bs' = bs ++ cs := by
  obtain ⟨es, hes⟩ := hbody
  rw [blocks, blocks, ← hes, hlists, Block.ofElements_append]
  cases hd : Block.ofElements o d.lists [] d.body with
  | error e =>
    refine ⟨fun e he => ?_, nofun⟩
    cases he
    rfl
  | ok r =>
    refine ⟨nofun, fun bs' hbs' => ?_⟩
    cases hes : Block.ofElements o d.lists r.2 es with
    | error e => simp [hes, bind, Except.bind, Except.map] at hbs'
    | ok q =>
      simp only [hes, bind, Except.bind, Except.map, pure, Except.pure, Except.ok.injEq] at hbs'
      exact ⟨r.1, q.1, rfl, hbs'.symm⟩

end RichText
