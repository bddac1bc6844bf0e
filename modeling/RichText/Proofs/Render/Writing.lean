import RichText.Convert
import RichText.Proofs.Tree.Grammar

/-!
Writing by rules for all kinds. Rendering can fail only for want of a rule or of a file mapping, so
with a rule for every kind and a file mapping for images the tree of every document is rendered,
and what is rendered is a plain recursion over the tree.
-/
namespace RichText

/-- The text that a rule works on, trimmed if it says so. -/
def Rule.inside (rule : Rule) (inner : List Char) : List Char :=
  if rule.trimInside then trim inner else inner

/-- What a rule puts around the text inside a node. -/
def Rule.around (rule : Rule) (nested : Bool) (d : Node) (inner : List Char) : List Char :=
  let text := if d.number = 0 then inner else rule.byNumber d.number inner
  let text := if d.level = 0 then text else rule.byLevel d.level text
  let text := if rule.wraps nested then rule.after (rule.before text) else text
  match d.url with
  | some url => rule.link url.toList text
  | none => text

theorem Rule.finish_eq (rule : Rule) (nested : Bool) (d : Node) (inner : List Char) :
    rule.finish nested d inner =
      if rule.requiresContent && (rule.inside inner).isEmpty then []
      else rule.around nested d (rule.inside inner) := rfl

theorem Rule.around_eq_of_plain {rule : Rule} {d : Node}
    (hnumber : ∀ n text, rule.byNumber n text = text)
    (hlevel : ∀ n text, rule.byLevel n text = text) (hurl : d.url = none) (nested : Bool)
    (inner : List Char) :
    rule.around nested d inner =
      if rule.wraps nested then rule.after (rule.before inner) else inner := by
  simp only [around, hnumber, hlevel, hurl, ite_self]

/-- A property of texts that what a rule adds keeps holds up to the link around all of it. -/
theorem Rule.exists_around_eq {rule : Rule} (P : List Char → Prop)
    (hnumber : ∀ n text, P text → P (rule.byNumber n text))
    (hlevel : ∀ n text, P text → P (rule.byLevel n text))
    (hwrapped : ∀ text, P text → P (rule.after (rule.before text))) (nested : Bool) (d : Node)
    {inner : List Char} (h : P inner) :
    ∃ text, P text ∧
      rule.around nested d inner = d.url.elim text fun url => rule.link url.toList text := by
  let numbered := if d.number = 0 then inner else rule.byNumber d.number inner
  have hnumbered : P numbered := by
    unfold numbered
    split
    · exact h
    · exact hnumber _ _ h
  let leveled := if d.level = 0 then numbered else rule.byLevel d.level numbered
  have hleveled : P leveled := by
    unfold leveled
    split
    · exact hnumbered
    · exact hlevel _ _ hnumbered
  refine ⟨if rule.wraps nested then rule.after (rule.before leveled) else leveled, ?_, ?_⟩
  · split
    · exact hwrapped _ hleveled
    · exact hleveled
  · rw [around]
    cases d.url <;> rfl

/-- The space in front of a sibling, if it needs one. -/
def Rendered.pad (last : Option Char) (previous : Option Kind) (r : Rendered) : List Char :=
  if r.leftPad && previous.any (· ≠ r.kind) && wordsMeet last r.text.head? then [' '] else []

theorem joinRendered_cons (last : Option Char) (previous : Option Kind) (r : Rendered)
    (rs : List Rendered) :
    joinRendered last previous (r :: rs) = r.pad last previous ++ (r.text ++
      joinRendered (r.text.getLast?.or last) (some r.kind) rs) := by
  rw [joinRendered, Rendered.pad]
  split_ifs <;> simp

theorem getLast?_pad_append (last : Option Char) (previous : Option Kind) (r : Rendered) :
    (r.pad last previous ++ r.text).getLast? = r.text.getLast? := by
  cases h : r.text with
  | nil => simp [Rendered.pad, h, wordsMeet]
  | cons c cs => simp [List.getLast?_append, List.getLast?_cons]

theorem joinRendered_append (last : Option Char) (previous : Option Kind) (rs ss : List Rendered) :
    joinRendered last previous (rs ++ ss) = joinRendered last previous rs ++
      joinRendered ((joinRendered last previous rs).getLast?.or last)
        ((rs.getLast?.map Rendered.kind).or previous) ss := by
  induction rs generalizing last previous with
  | nil => simp [joinRendered]
  | cons r rs ih =>
    have hlast : (joinRendered last previous (r :: rs)).getLast?.or last =
        (joinRendered (r.text.getLast?.or last) (some r.kind) rs).getLast?.or
          (r.text.getLast?.or last) := by
      rw [joinRendered_cons, ← List.append_assoc, List.getLast?_append, getLast?_pad_append,
        Option.or_assoc]
    have hprevious : ((r :: rs).getLast?.map Rendered.kind).or previous =
        (rs.getLast?.map Rendered.kind).or (some r.kind) := by
      rw [List.getLast?_cons]
      cases rs.getLast? <;> rfl
    rw [hlast, hprevious, List.cons_append, joinRendered_cons, ih, joinRendered_cons]
    simp only [List.append_assoc]

section
variable (rules : Kind → Rule) (files : Manifest)

/-- The text of an object by the rule of its kind. -/
def writeObject (kind : Kind) (id : String) : List Char :=
  match files.get? id, (rules kind).file with
  | some file, some write => write file
  | _, _ => []

mutual
/-- The text of a tree by rules for all kinds. -/
def writeTree (nested raw : Bool) : Tree → List Char
  | .node _ d ts =>
    match d.objectId with
    | some id => writeObject rules files d.kind id
    | none =>
      let raw := raw || (rules d.kind).raw
      let text := (rules d.kind).literal raw d.content
      (rules d.kind).finish nested d
        (text ++ joinRendered text.getLast? none (writeAll d.kind raw ts))
def writeAll (parent : Kind) (raw : Bool) : List Tree → List Rendered
  | [] => []
  | c :: cs =>
    ⟨c.kind, (rules c.kind).leftPad, writeTree (c.kind = parent) raw c⟩ :: writeAll parent raw cs
end

variable {rules files}

theorem writeAll_eq_map (parent : Kind) (raw : Bool) (ts : List Tree) :
    writeAll rules files parent raw ts = ts.map fun t =>
      ⟨t.kind, (rules t.kind).leftPad, writeTree rules files (t.kind = parent) raw t⟩ := by
  induction ts with
  | nil => rfl
  | cons t ts ih => rw [writeAll, ih, List.map_cons]

theorem exists_of_mem_writeAll {parent : Kind} {raw : Bool} {ts : List Tree} {r : Rendered}
    (h : r ∈ writeAll rules files parent raw ts) :
    ∃ t ∈ ts, r.text = writeTree rules files (t.kind = parent) raw t := by
  rw [writeAll_eq_map] at h
  obtain ⟨t, ht, rfl⟩ := List.mem_map.1 h
  exact ⟨t, ht, rfl⟩

variable (files)

theorem renderTree_eq_ok (key : String) (hfile : (rules .image).file.isSome) {t : Tree}
    (h : t.Everywhere Tree.Fits) (nested raw : Bool) :
    (RuleTable.mk key fun k => some (rules k)).renderTree files nested raw t =
      .ok (writeTree rules files nested raw t) := by
  induction t generalizing nested raw with
  | node i d ts ih =>
    rw [Tree.everywhere_node] at h
    have hall (parent : Kind) (raw : Bool) (us : List Tree) (hus : ∀ u ∈ us, u ∈ ts) :
        (RuleTable.mk key fun k => some (rules k)).renderAll files parent raw us =
          .ok (writeAll rules files parent raw us) := by
      induction us with
      | nil => rfl
      | cons u us ihus =>
        simp only [List.mem_cons, forall_eq_or_imp] at hus
        simp only [RuleTable.renderAll, RuleTable.rule, writeAll, ihus hus.2,
          ih u hus.1 (h.2 u hus.1), bind, Except.bind, pure, Except.pure]
    simp only [RuleTable.renderTree, RuleTable.rule, writeTree, bind, Except.bind, pure,
      Except.pure]
    cases ho : d.objectId with
    | none => simp only [hall _ _ ts fun _ hu => hu]
    | some id =>
      have hk : d.kind = .image := h.1.data.object.1 (by simp [ho])
      obtain ⟨write, hw⟩ := Option.isSome_iff_exists.1 hfile
      simp only [RuleTable.renderObject, writeObject, hk, hw]
      cases files.get? id <;> rfl

theorem render_eq_ok {format key : String}
    (hget : Registry.standard.get format = .ok ⟨key, fun k => some (rules k)⟩)
    (hfile : (rules .image).file.isSome) {t : Tree} (h : t.Everywhere Tree.Fits) :
    render format t files = .ok (String.ofList (writeTree rules files false false t)) := by
  simp only [render, Registry.render, hget, bind, Except.bind, RuleTable.render,
    renderTree_eq_ok files key hfile h]
  rfl

/-- Converting to a format with rules for all kinds fails only where the document has no tree. -/
theorem Converter.convert_eq {c : Converter} {key : String}
    (hget : Registry.standard.get c.format = .ok ⟨key, fun k => some (rules k)⟩)
    (hfile : (rules .image).file.isSome) (d : Document) :
    c.convert d files =
      (d.tree c.options).map fun t => String.ofList (writeTree rules files false false t) := by
  rw [convert, hget]
  cases ht : d.tree c.options with
  | error e => simp only [tree, ht, bind, Except.bind, Except.map]
  | ok t =>
    have hrender := render_eq_ok files hget hfile (Document.everywhere_fits ht)
    simp only [tree, ht, render, hrender, bind, Except.bind, Except.map]

end

end RichText
