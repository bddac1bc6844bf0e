import RichText.Proofs.Block.Strictness
import RichText.Proofs.Registry.Calls
import RichText.Proofs.Render.Writing

/-!
What can come of a conversion. The three standard tables have a rule for every kind and show the
files of images, so they write the tree of every document. A conversion therefore fails for two
reasons only, a format that is not there or a document without a tree, and all ways of converting
agree.
-/
namespace RichText

namespace Registry

theorem register_standard :
    (do let r ← empty.register Markdown.table ["markdown"]
        let r ← r.register Html.table []
        r.register PlainText.table ["text"]) = .ok standard := by
  have hmarkdown := register_of_total (t := Markdown.table) fun _ => rfl
  have hhtml := register_of_total (t := Html.table) fun _ => rfl
  have hplain := register_of_total (t := PlainText.table) fun _ => rfl
  simp only [hmarkdown, hhtml, hplain, bind, Except.bind, standard]

theorem supports_standard_iff (name : String) : standard.supports name ↔
    lowerCase name ∈ ["md", "markdown", "html", "txt", "text"] := by
  rw [supports, place?, standard_eq, List.lookup_isSome_iff]
  constructor
  · rintro ⟨e, he, hk⟩
    rw [beq_iff_eq.1 hk]
    simp only [List.mem_cons, List.not_mem_nil, or_false] at he ⊢
    rcases he with rfl | rfl | rfl | rfl | rfl <;> simp
  · intro hname
    simp only [List.mem_cons, List.not_mem_nil, or_false] at hname
    rcases hname with hname | hname | hname | hname | hname <;> simp [hname]

/-- A registered name stands for one of the three tables. -/
theorem get_standard {name : String} (h : standard.supports name) :
    ∃ t ∈ [Markdown.table, Html.table, PlainText.table], standard.get name = .ok t := by
  obtain ⟨i, hi⟩ := Option.isSome_iff_exists.1 h
  obtain ⟨hlt, hget⟩ := (sound_of_start (.inr rfl)).get_of_place? hi
  exact ⟨_, List.getElem_mem hlt, hget⟩

theorem get_standard_of_not {name : String} (h : standard.supports name = false) :
    standard.get name = .error (.unknownFormat name) := by
  rw [supports, Option.isSome_eq_false_iff, Option.isNone_iff_eq_none] at h
  exact get_of_no_place h

end Registry

namespace Converter

/-- A conversion to a registered format makes the tree and writes it, and the writing succeeds. -/
theorem exists_convert_eq_map {c : Converter} (h : Registry.standard.supports c.format)
    (files : Manifest) : ∃ write : Tree → String, ∀ d : Document,
      c.convert d files = (d.tree c.options).map write := by
  obtain ⟨t, ht, hget⟩ := Registry.get_standard h
  simp only [List.mem_cons, List.not_mem_nil, or_false] at ht
  rcases ht with rfl | rfl | rfl
  · exact ⟨_, convert_eq files hget rfl⟩
  · exact ⟨_, convert_eq files hget rfl⟩
  · exact ⟨_, convert_eq files hget rfl⟩

theorem convert_eq_bind {c : Converter} (h : Registry.standard.supports c.format) (d : Document)
    (files : Manifest) :
    c.convert d files = c.tree d >>= fun t => RichText.render c.format t files := by
  obtain ⟨t, -, hget⟩ := Registry.get_standard h
  rw [convert, hget]
  rfl

/-- What can come of a conversion, and which ways of converting agree. -/
structure Outcome (c : Converter) (d : Document) (files : Manifest) : Prop where
  /-- The names of the formats and their aliases count in any letter case. -/
  registered : Registry.standard.supports c.format ↔
    lowerCase c.format ∈ ["md", "markdown", "html", "txt", "text"]
  /-- The error holds the name as it is given. -/
  unknown : Registry.standard.supports c.format = false →
    c.convert d files = .error (.unknownFormat c.format)
  succeeds : Registry.standard.supports c.format →
    ((∃ out, c.convert d files = .ok out) ↔ ∃ t, c.tree d = .ok t)
  fails : Registry.standard.supports c.format →
    ∀ e, c.convert d files = .error e ↔ c.tree d = .error e
  /-- Not even a bullet whose depth wraps around is in the way. -/
  lenient : Registry.standard.supports c.format → c.options.lenient →
    ∃ out, c.convert d files = .ok out
  /-- Rendering does not add to the errors. -/
  causes : ∀ e, c.convert d files = .error e → e = .unknownFormat c.format ∨ e.isMalformed
  plain : RichText.convert c.format d files = ({ format := c.format } : Converter).convert d files
  stepwise : Registry.standard.supports c.format →
    c.convert d files = c.tree d >>= fun t => RichText.render c.format t files

end Converter

end RichText
