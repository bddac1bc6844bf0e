import RichText.Proofs.Tree.Numbering

/-!
Strict and lenient readings of a document. A document has no tree for one reason only, a bullet
whose list or level is not defined, and the error tells of the first such bullet in document order.
Lenient reading has an answer for these bullets too, so it always succeeds, and on a document
without them both readings take the same steps and make the same tree.
-/
namespace RichText

/-- Whether the document is at fault. -/
def Error.isMalformed : Error → Bool
  | .undefinedList _ | .undefinedLevel _ _ => true
  | _ => false

namespace Bullet

/-- The text about a bullet whose list is not in the catalog, or whose level the list lacks. -/
inductive Complaint (lists : Catalog ListStyle) (b : Bullet) : String → Prop where
  | list : lists.get? b.listId = none →
    Complaint lists b ("Malformed document: paragraph references undefined list " ++
      quoted b.listId)
  | level {style : ListStyle} : lists.get? b.listId = some style →
    style.levels.length ≤ b.level.toNat →
    Complaint lists b ("Malformed document: list " ++ quoted b.listId ++ " has no nesting level " ++
      toString b.level.toNat)

/-- The error of a bullet, if its item cannot be made. -/
def error? (o : Options) (lists : Catalog ListStyle) (b : Bullet) : Option Error :=
  match b.isOrdered o lists with
  | .ok _ => none
  | .error e => some e

variable {o : Options} {lists : Catalog ListStyle}

theorem isOrdered?_eq_none_iff {style : ListStyle} {level : UInt32} :
    style.isOrdered? level = none ↔ style.levels.length ≤ level.toNat := by
  rw [ListStyle.isOrdered?, Option.map_eq_none_iff, List.getElem?_eq_none_iff]

/-- A strict reading takes the bullets about which there is nothing to say, and no others. -/
theorem error?_cases (ho : o.lenient = false) (lists : Catalog ListStyle) (b : Bullet) :
    (b.error? o lists = none ∧ ∀ text, ¬ b.Complaint lists text) ∨
      ∃ e, b.error? o lists = some e ∧ e.isMalformed ∧ b.Complaint lists e.message := by
  unfold error? isOrdered
  cases hl : lists.get? b.listId with
  | none =>
    simp only [ho, Bool.false_eq_true, if_false]
    exact .inr ⟨_, rfl, rfl, .list hl⟩
  | some style =>
    cases hs : style.isOrdered? b.level with
    | none =>
      simp only [hs, ho, Bool.false_eq_true, if_false]
      exact .inr ⟨_, rfl, rfl, .level hl (isOrdered?_eq_none_iff.1 hs)⟩
    | some ordered =>
      refine .inl ⟨by simp only [hs], fun text hc => ?_⟩
      cases hc with
      | list hnone => simp [hl] at hnone
      | level hsome hle =>
        obtain rfl : style = _ := Option.some.inj (hl.symm.trans hsome)
        simp [isOrdered?_eq_none_iff.2 hle] at hs

theorem error?_eq_none_iff (ho : o.lenient = false) {b : Bullet} :
    b.error? o lists = none ↔ ∀ text, ¬ b.Complaint lists text := by
  obtain ⟨hb, hc⟩ | ⟨e, hb, -, hc⟩ := error?_cases ho lists b
  · simp [hb, hc]
  · simp only [hb, reduceCtorEq, false_iff]
    exact fun h => h _ hc

theorem error?_of_lenient (ho : o.lenient = true) (b : Bullet) : b.error? o lists = none := by
  unfold error? isOrdered
  cases lists.get? b.listId with
  | none => simp only [ho, if_true]
  | some style => cases hs : style.isOrdered? b.level <;> simp only [ho, hs, if_true]

/-- A lenient reading takes a bullet for what a strict reading takes it for. -/
theorem isOrdered_lenient {b : Bullet} {ordered : Bool} (h : b.isOrdered o lists = .ok ordered) :
    b.isOrdered { o with lenient := true } lists = .ok ordered := by
  unfold isOrdered at h ⊢
  cases hl : lists.get? b.listId with
  | none =>
    simp only [hl] at h ⊢
    split at h <;> simp_all
  | some style =>
    cases hs : style.isOrdered? b.level with
    | none =>
      simp only [hl, hs] at h ⊢
      split at h <;> simp_all
    | some x => simpa only [hl, hs] using h

end Bullet

namespace Block
section
variable (o : Options) (lists : Catalog ListStyle)

theorem ofParagraph_of_bullet {p : Paragraph} {b : Bullet} (hb : p.bullet = some b)
    (seen : List Bullet) :
    ofParagraph o lists seen p = (b.isOrdered o lists).map fun ordered =>
      (.item ⟨ordered, b.depth, seen.count b + 1, p.inlines⟩, b :: seen) := by
  unfold ofParagraph
  rw [hb]
  rfl

theorem ofParagraph_of_no_bullet {p : Paragraph} (hb : p.bullet = none) (seen : List Bullet) :
    ∃ b, ofParagraph o lists seen p = .ok (b, seen) := by
  unfold ofParagraph
  rw [hb]
  split_ifs <;> exact ⟨_, rfl⟩

end

variable {o : Options} {lists : Catalog ListStyle}

/-- Paragraphs one after the other fail with the error of the first bullet that has one. -/
theorem ofParagraphs_eq_error_iff {seen : List Bullet} {ps : List Paragraph} {e : Error} :
    ofParagraphs o lists seen ps = .error e ↔
      (ps.filterMap Paragraph.bullet).findSome? (Bullet.error? o lists) = some e := by
  induction ps generalizing seen with
  | nil => simp [ofParagraphs]
  | cons p ps ih =>
    -- A paragraph that is taken leaves the error to those behind it.
    have hrest {b : Block} {seen₁ : List Bullet}
        (hp : ofParagraph o lists seen p = .ok (b, seen₁)) :
        ofParagraphs o lists seen (p :: ps) = .error e ↔
          ofParagraphs o lists seen₁ ps = .error e := by
      simp only [ofParagraphs, hp, bind, Except.bind]
      cases ofParagraphs o lists seen₁ ps <;> simp [pure, Except.pure]
    cases hb : p.bullet with
    | none =>
      obtain ⟨b, hp⟩ := ofParagraph_of_no_bullet o lists hb seen
      rw [hrest hp, ih, List.filterMap_cons_none hb]
    | some u =>
      have hp := ofParagraph_of_bullet o lists hb seen
      rw [List.filterMap_cons_some hb, List.findSome?_cons]
      cases ho : u.isOrdered o lists with
      | ok ordered =>
        rw [ho] at hp
        rw [hrest hp, ih, Bullet.error?, ho]
      | error e' =>
        rw [ho] at hp
        simp only [ofParagraphs, hp, Bullet.error?, ho, bind, Except.bind, Except.map,
          Except.error.injEq, Option.some.injEq]

theorem ofParagraph_lenient {seen : List Bullet} {p : Paragraph} {r : Block × List Bullet}
    (h : ofParagraph o lists seen p = .ok r) :
    ofParagraph { o with lenient := true } lists seen p = .ok r := by
  unfold ofParagraph at h ⊢
  cases hb : p.bullet with
  | none => simpa only [hb] using h
  | some b =>
    simp only [hb, bind_eq_ok] at h ⊢
    obtain ⟨ordered, ho, hr⟩ := h
    exact ⟨ordered, Bullet.isOrdered_lenient ho, hr⟩

theorem ofParagraph?_lenient {seen : List Bullet} {p : Option Paragraph}
    {r : List Block × List Bullet} (h : ofParagraph? o lists seen p = .ok r) :
    ofParagraph? { o with lenient := true } lists seen p = .ok r := by
  cases p with
  | none => exact h
  | some p =>
    simp only [ofParagraph?, bind_eq_ok] at h ⊢
    obtain ⟨s, hp, hr⟩ := h
    exact ⟨s, ofParagraph_lenient hp, hr⟩

mutual
/-- Where a reading succeeds, the lenient reading does the same. -/
theorem ofElement_lenient : ∀ (e : Element) {seen : List Bullet} {r : List Block × List Bullet},
    ofElement o lists seen e = .ok r → ofElement { o with lenient := true } lists seen e = .ok r
  | .mk _ _ p none, _, _, h => by
    rw [ofElement] at h ⊢
    exact ofParagraph?_lenient h
  | .mk _ _ p (some ⟨_, _, rows⟩), _, _, h => by
    simp only [ofElement, bind_eq_ok] at h ⊢
    obtain ⟨s, hp, s', hrows, hr⟩ := h
    exact ⟨s, ofParagraph?_lenient hp, s', ofRows_lenient rows hrows, hr⟩
theorem ofElements_lenient : ∀ (es : List Element) {seen : List Bullet}
    {r : List Block × List Bullet},
    ofElements o lists seen es = .ok r → ofElements { o with lenient := true } lists seen es = .ok r
  | [], _, _, h => h
  | e :: es, _, _, h => by
    simp only [ofElements, bind_eq_ok] at h ⊢
    obtain ⟨s, he, s', hes, hr⟩ := h
    exact ⟨s, ofElement_lenient e he, s', ofElements_lenient es hes, hr⟩
theorem ofRows_lenient : ∀ (rows : List (List (List Element))) {seen : List Bullet}
    {r : List (List (List Block)) × List Bullet},
    ofRows o lists seen rows = .ok r → ofRows { o with lenient := true } lists seen rows = .ok r
  | [], _, _, h => h
  | row :: rows, _, _, h => by
    simp only [ofRows, bind_eq_ok] at h ⊢
    obtain ⟨s, hrow, s', hrows, hr⟩ := h
    exact ⟨s, ofCells_lenient row hrow, s', ofRows_lenient rows hrows, hr⟩
theorem ofCells_lenient : ∀ (cells : List (List Element)) {seen : List Bullet}
    {r : List (List Block) × List Bullet},
    ofCells o lists seen cells = .ok r → ofCells { o with lenient := true } lists seen cells = .ok r
  | [], _, _, h => h
  | cell :: cells, _, _, h => by
    simp only [ofCells, bind_eq_ok] at h ⊢
    obtain ⟨s, hcell, s', hcells, hr⟩ := h
    exact ⟨s, ofElements_lenient cell hcell, s', ofCells_lenient cells hcells, hr⟩
end

end Block

namespace Document
variable {d : Document} {o : Options}

/-- A document has no tree exactly if some bullet has an error, and the first such error is told. -/
theorem tree_eq_error_iff {e : Error} :
    d.tree o = .error e ↔ d.bullets.findSome? (Bullet.error? o d.lists) = some e := by
  have hmap := Block.map_ofElements o d.lists [] d.body
  have hps : Block.ofParagraphs o d.lists [] d.paragraphs = .error e ↔ _ :=
    Block.ofParagraphs_eq_error_iff
  rw [bullets, ← hps, paragraphs, ← hmap, tree, blocks]
  cases Block.ofElements o d.lists [] d.body <;> simp [Except.map]

theorem exists_tree_of_lenient (ho : o.lenient = true) : ∃ t, d.tree o = .ok t := by
  cases ht : d.tree o with
  | ok t => exact ⟨t, rfl⟩
  | error e =>
    rw [tree_eq_error_iff, List.findSome?_eq_some_iff] at ht
    obtain ⟨before, b, after, -, hb, -⟩ := ht
    simp [Bullet.error?_of_lenient ho] at hb

/-- The error of a strict reading is that of the first bullet there is something to say about. -/
theorem complaint_of_tree_eq_error (ho : o.lenient = false) {e : Error}
    (h : d.tree o = .error e) : e.isMalformed ∧
      ∃ before b after, d.bullets = before ++ b :: after ∧
        (∀ c ∈ before, ∀ text, ¬ c.Complaint d.lists text) ∧ b.Complaint d.lists e.message := by
  rw [tree_eq_error_iff, List.findSome?_eq_some_iff] at h
  obtain ⟨before, b, after, hbullets, hb, hbefore⟩ := h
  obtain ⟨hnone, -⟩ | ⟨e', hsome, hmalformed, hc⟩ := Bullet.error?_cases ho d.lists b
  · simp [hnone] at hb
  · obtain rfl : e' = e := Option.some.inj (hsome.symm.trans hb)
    refine ⟨hmalformed, before, b, after, hbullets, fun c hcb => ?_, hc⟩
    exact (Bullet.error?_eq_none_iff ho).1 (hbefore c hcb)

/-- Whatever the options are, only the document is to blame for the lack of a tree. -/
theorem isMalformed_of_tree_eq_error {e : Error} (h : d.tree o = .error e) : e.isMalformed := by
  cases ho : o.lenient with
  | true =>
    obtain ⟨t, ht⟩ := exists_tree_of_lenient (d := d) ho
    rw [ht] at h
    cases h
  | false => exact (complaint_of_tree_eq_error ho h).1

theorem tree_lenient {t : Tree} (h : d.tree o = .ok t) :
    d.tree { o with lenient := true } = .ok t := by
  unfold tree blocks at h ⊢
  cases he : Block.ofElements o d.lists [] d.body with
  | error e => simp [he, Except.map] at h
  | ok r => rw [Block.ofElements_lenient d.body he, ← h, he]

/-- A strict reading fails exactly if the list or the level of some bullet is not defined, and the
error then blames the document, in the words for the first such bullet in document order. A lenient
reading never fails, and it makes the same tree wherever the strict reading makes one. -/
theorem tree_strict_lenient (d : Document) (o : Options) :
    ((∃ e, d.tree { o with lenient := false } = .error e) ↔
      ∃ b ∈ d.bullets, ∃ text, b.Complaint d.lists text) ∧
    (∀ e, d.tree { o with lenient := false } = .error e → e.isMalformed ∧
      ∃ before b after, d.bullets = before ++ b :: after ∧
        (∀ c ∈ before, ∀ text, ¬ c.Complaint d.lists text) ∧ b.Complaint d.lists e.message) ∧
    (∃ t, d.tree { o with lenient := true } = .ok t) ∧
    ∀ t, d.tree { o with lenient := false } = .ok t → d.tree { o with lenient := true } = .ok t := by
  have hsame (t : Tree) (ht : d.tree { o with lenient := false } = .ok t) :
      d.tree { o with lenient := true } = .ok t :=
    tree_lenient (o := { o with lenient := false }) ht
  refine ⟨⟨?_, ?_⟩, fun e he => complaint_of_tree_eq_error rfl he, exists_tree_of_lenient rfl,
    hsame⟩
  · rintro ⟨e, he⟩
    obtain ⟨-, before, b, after, hbullets, -, hc⟩ := complaint_of_tree_eq_error rfl he
    exact ⟨b, by simp [hbullets], _, hc⟩
  · rintro ⟨b, hb, text, hc⟩
    cases he : d.tree { o with lenient := false } with
    | error e => exact ⟨e, rfl⟩
    | ok t =>
      -- With a tree no bullet has an error, so there would be nothing to say about `b`.
      have hnone :
          d.bullets.findSome? (Bullet.error? { o with lenient := false } d.lists) = none := by
        rw [Option.eq_none_iff_forall_ne_some]
        intro e' he'
        rw [← tree_eq_error_iff, he] at he'
        cases he'
      rw [List.findSome?_eq_none_iff] at hnone
      exact absurd hc ((Bullet.error?_eq_none_iff rfl).1 (hnone b hb) text)

/-- An item too deep for its list in a table inside a table, and an item of no list behind it. -/
def misfiled : Document :=
  (({} : Document).addList "b" (.uniform .unspecified 1))
    |>.addParagraph (.bulleted "b" 0 "first")
    |>.addTable (.addRow {} [Element.cellOfText "cell",
      [.ofTable (.addRow {} [[.ofParagraph (.bulleted "b" 1 "deep")]])]])
    |>.addParagraph (.bulleted "?" 0 "lost")

theorem tree_strict_lenient_misfiled :
    (∃ e, misfiled.tree {} = .error e ∧ e.isMalformed ∧
      (⟨"b", 1⟩ : Bullet).Complaint misfiled.lists e.message) ∧
    ∃ t, misfiled.tree { lenient := true } = .ok t := by
  obtain ⟨hfails, hfirst, hlenient, -⟩ := tree_strict_lenient misfiled {}
  have hlost : misfiled.lists.get? "?" = none := by decide
  have hlist : misfiled.lists.get? "b" = some (.uniform .unspecified 1) := by decide
  obtain ⟨e, he⟩ := hfails.2 ⟨⟨"?", 0⟩, by decide, _, .list hlost⟩
  have hdeep : misfiled.tree {} = .error (.undefinedLevel "b" 1) := rfl
  obtain rfl : .undefinedLevel "b" 1 = e := Except.error.inj (hdeep.symm.trans he)
  exact ⟨⟨_, he, (hfirst _ he).1, .level hlist (by decide)⟩, hlenient⟩

end Document

end RichText
