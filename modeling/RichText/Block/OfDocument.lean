import RichText.Block.Basic
import RichText.Document.Basic
import RichText.Error

/-!
The blocks of a document. A paragraph's elements are taken by their offsets. List items are
counted over the whole document, separately for each list and level. Levels and depths are numbers
of 32 bits; the counts are exact, for no document has as many items as 32 bits can count.
-/
namespace RichText

structure Options where
  /-- Whether items of undefined lists or levels become unordered items. -/
  lenient : Bool := false
  /-- The font family that marks code. -/
  codeFont : String := "Consolas"
  deriving DecidableEq, Repr

/-- What an element shows. An empty run shows nothing, even with an object beside it. -/
def Inline.ofElement? (e : ParagraphElement) : Option Inline :=
  match e.textRun, e.object with
  | some run, _ =>
    if run.content = "" then none
    else some (.text run.style.bold run.style.italic run.url? run.content)
  | none, some o => some (.image o.id)
  | none, none => none

namespace Paragraph

def inlines (p : Paragraph) : List Inline := p.sortedElements.filterMap Inline.ofElement?

/-- Whether there are elements, and all of them are runs in that font. -/
def isInFont (p : Paragraph) (font : String) : Bool :=
  !p.elements.isEmpty && p.elements.all fun e => e.textRun.bind TextRun.fontFamily? = some font

/-- The text of all runs, by their offsets. -/
def sortedText (p : Paragraph) : String :=
  String.join (p.sortedElements.filterMap fun e => e.textRun.map TextRun.content)

end Paragraph

/-- Whether the item of a bullet is numbered. -/
def Bullet.isOrdered (o : Options) (lists : Catalog ListStyle) (b : Bullet) : Except Error Bool :=
  match lists.get? b.listId with
  | none => if o.lenient then .ok false else .error (.undefinedList b.listId)
  | some style =>
    match style.isOrdered? b.level with
    | none => if o.lenient then .ok false else .error (.undefinedLevel b.listId b.level)
    | some ordered => .ok ordered

/-- The depth of the item of a bullet, one more than the level. The sum is not checked: behind the
last level of 32 bits it wraps around to zero. -/
def Bullet.depth (b : Bullet) : Nat := (b.level + 1).toNat

namespace Block

/-- The block of a paragraph, given the bullets before it, and the bullets up to it. -/
def ofParagraph (o : Options) (lists : Catalog ListStyle) (seen : List Bullet) (p : Paragraph) :
    Except Error (Block × List Bullet) :=
  match p.bullet with
  | some b => do
    let ordered ← b.isOrdered o lists
    return (.item ⟨ordered, b.depth, seen.count b + 1, p.inlines⟩, b :: seen)
  | none =>
    if p.style.headingLevel ≠ 0 then .ok (.heading p.style.headingLevel p.inlines, seen)
    else if p.isInFont o.codeFont then .ok (.code p.sortedText, seen)
    else .ok (.paragraph p.inlines, seen)

/-- The block of a paragraph that may be absent. -/
def ofParagraph? (o : Options) (lists : Catalog ListStyle) (seen : List Bullet) :
    Option Paragraph → Except Error (List Block × List Bullet)
  | none => .ok ([], seen)
  | some p => do
    let (b, seen) ← ofParagraph o lists seen p
    return ([b], seen)

mutual
/-- The blocks of an element, given the bullets before it: the paragraph before the table. -/
def ofElement (o : Options) (lists : Catalog ListStyle) (seen : List Bullet) :
    Element → Except Error (List Block × List Bullet)
  | .mk _ _ p none => ofParagraph? o lists seen p
  | .mk _ _ p (some ⟨_, _, rows⟩) => do
    let (bs, seen) ← ofParagraph? o lists seen p
    let (rows, seen) ← ofRows o lists seen rows
    return (bs ++ [.table rows], seen)
def ofElements (o : Options) (lists : Catalog ListStyle) (seen : List Bullet) :
    List Element → Except Error (List Block × List Bullet)
  | [] => .ok ([], seen)
  | e :: es => do
    let (bs, seen) ← ofElement o lists seen e
    let (cs, seen) ← ofElements o lists seen es
    return (bs ++ cs, seen)
def ofRows (o : Options) (lists : Catalog ListStyle) (seen : List Bullet) :
    List (List (List Element)) → Except Error (List (List (List Block)) × List Bullet)
  | [] => .ok ([], seen)
  | row :: rows => do
    let (cells, seen) ← ofCells o lists seen row
    let (rest, seen) ← ofRows o lists seen rows
    return (cells :: rest, seen)
def ofCells (o : Options) (lists : Catalog ListStyle) (seen : List Bullet) :
    List (List Element) → Except Error (List (List Block) × List Bullet)
  | [] => .ok ([], seen)
  | cell :: cells => do
    let (bs, seen) ← ofElements o lists seen cell
    let (rest, seen) ← ofCells o lists seen cells
    return (bs :: rest, seen)
end

end Block

/-- The blocks of the body. -/
def Document.blocks (d : Document) (o : Options) : Except Error (List Block) :=
  (Block.ofElements o d.lists [] d.body).map Prod.fst

end RichText
