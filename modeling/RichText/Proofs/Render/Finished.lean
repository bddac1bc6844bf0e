import RichText.Format.Html
import RichText.Format.Markdown
import RichText.Format.PlainText
import RichText.Proofs.Block.Sequence
import RichText.Proofs.Text.Gaps
import RichText.Proofs.Tree.Appending

/-!
Finished documents. Whatever the nodes below the root are written as, the text of the whole is empty
or ends its last line with a character that is not blank and one line break, and no empty line
stands at its start. Finishing it once more changes nothing.
-/
namespace RichText

/-- A text that is empty, or ends in one line break behind a character that is not blank and begins
with no line break. -/
def Finished (text : List Char) : Prop :=
  text = [] ∨ ∃ body c, text = body ++ [c, '\n'] ∧ isBlank c = false ∧ text.head? ≠ some '\n'

theorem getLast?_trimEnd {cs : List Char} {c : Char} (h : (trimEnd cs).getLast? = some c) :
    isBlank c = false := by
  have hlast := List.head?_dropWhile_not isBlank cs.reverse
  rw [trimEnd, dropEndWhile, List.getLast?_reverse] at h
  rwa [h] at hlast

theorem finished_concat {text : List Char} (hlast : ∀ c, text.getLast? = some c → isBlank c = false)
    (hfirst : text.head? ≠ some '\n') (hne : text ≠ []) : Finished (text ++ ['\n']) := by
  obtain ⟨body, c, rfl⟩ := List.eq_nil_or_concat text |>.resolve_left hne
  refine .inr ⟨body, c, by simp, hlast c (by simp), ?_⟩
  rwa [List.head?_append_of_ne_nil _ hne]

theorem finished_finishDocument (body : List Char) : Finished (finishDocument body) := by
  have hfirst : (trimEnd (body.dropWhile (· = '\n'))).head? ≠ some '\n' := by
    intro h
    obtain ⟨tail, -, htail⟩ :=
      exists_dropEndWhile_append (fun _ h => h) (body.dropWhile (· = '\n'))
    have hbody := List.head?_dropWhile_not (fun c : Char => c = '\n') body
    rw [htail, ← trimEnd, List.head?_append, h, Option.some_or] at hbody
    exact absurd hbody (by decide)
  rw [finishDocument]
  cases htext : trimEnd (body.dropWhile (· = '\n')) with
  | nil => exact .inl rfl
  | cons c text =>
    rw [htext] at hfirst
    have hlast : ∀ d ∈ (c :: text).getLast?, isBlank d = false :=
      fun d hd => getLast?_trimEnd (htext ▸ hd)
    exact finished_concat hlast hfirst (List.cons_ne_nil c text)

/-- A finished text is finished already. -/
theorem Finished.finishDocument_eq {text : List Char} (h : Finished text) :
    finishDocument text = text := by
  obtain rfl | ⟨body, c, rfl, hc, hfirst⟩ := h
  · rfl
  · have hstart : (body ++ [c, '\n']).dropWhile (· = '\n') = body ++ [c, '\n'] := by
      cases body with
      | nil => simp_all
      | cons b body => simp_all
    have hend : trimEnd (body ++ [c, '\n']) = body ++ [c] := by
      rw [List.append_cons body c ['\n'], trimEnd, dropEndWhile_concat, dropEndWhile_concat, hc]
      rfl
    rw [finishDocument, hstart, hend]
    cases body <;> simp

theorem finishDocument_finishDocument (body : List Char) :
    finishDocument (finishDocument body) = finishDocument body :=
  (finished_finishDocument body).finishDocument_eq

/-- A tree that grew from its root still has the root. -/
theorem Tree.Built.data_eq {T : Tree} (h : T.Built) : T.data = { kind := .document } := by
  induction h with
  | empty => rfl
  | append d _ _ ih => rw [Tree.append, data_addUnder, ih]

namespace RuleTable

/-- What is written for a whole tree is made of some text inside its root by the rule for
documents. -/
theorem exists_render_eq {t : RuleTable} {files : Manifest} {T : Tree} (hT : T.Built) {out : String}
    (h : t.render files T = .ok out) :
    ∃ rule inner, t.rule .document = .ok rule ∧
      out.toList = rule.finish false { kind := .document } inner := by
  obtain ⟨i, d, ts⟩ := T
  obtain rfl : d = { kind := .document } := hT.data_eq
  cases htext : t.renderTree files false false (.node i { kind := .document } ts) with
  | error e =>
    rw [render, htext] at h
    cases h
  | ok text =>
    rw [render, htext] at h
    obtain rfl : String.ofList text = out := Except.ok.inj h
    rw [renderTree, bind_eq_ok] at htext
    obtain ⟨rule, hrule, htext⟩ := htext
    obtain ⟨rendered, -, htext⟩ := bind_eq_ok.1 htext
    rw [String.toList_ofList, ← Except.ok.inj htext]
    exact ⟨rule, _, hrule, rfl⟩

/-- Markdown and plain text have the same rule for documents. -/
theorem finished_body (inner : List Char) :
    Finished (({ requiresContent := true, after := finishDocument } : Rule).finish false
      { kind := .document } inner) := by
  cases inner with
  | nil => exact .inl rfl
  | cons c inner => exact finished_finishDocument (c :: inner)

theorem finished_html (inner : List Char) :
    let text := (Html.rule .document).finish false { kind := .document } inner
    Finished text ∧ ∀ c, text.head? = some c → isBlank c = false := by
  intro text
  have htext : text = if (trim inner).isEmpty then [] else trim inner ++ ['\n'] := rfl
  rw [htext]
  simp only [List.isEmpty_iff]
  split_ifs with hempty
  · exact ⟨.inl rfl, by simp⟩
  · have hfirst : (trim inner).head? ≠ some '\n' := fun h => absurd (head?_trim h) (by decide)
    refine ⟨finished_concat (fun _ => getLast?_trim) hfirst hempty, fun c hc => ?_⟩
    rw [List.head?_append_of_ne_nil _ hempty] at hc
    exact head?_trim hc

/-- Finishing twice is finishing once. In every format the text of a tree that grew by appending is
finished, and in HTML it does not begin with a blank. -/
theorem finished_render : (∀ body, finishDocument (finishDocument body) = finishDocument body) ∧
    ∀ T : Tree, T.Built → ∀ (files : Manifest) (t : RuleTable) (out : String),
      t ∈ [Markdown.table, Html.table, PlainText.table] → t.render files T = .ok out →
        Finished out.toList ∧
          (t.key = "html" → ∀ c, out.toList.head? = some c → isBlank c = false) := by
  refine ⟨finishDocument_finishDocument, fun T hT files t out ht h => ?_⟩
  obtain ⟨rule, inner, hrule, hout⟩ := exists_render_eq hT h
  rw [hout]
  simp only [List.mem_cons, List.not_mem_nil, or_false] at ht
  rcases ht with rfl | rfl | rfl
  · obtain rfl : Markdown.rule .document = rule := Except.ok.inj hrule
    exact ⟨finished_body inner, fun hkey => absurd hkey (by decide)⟩
  · obtain rfl : Html.rule .document = rule := Except.ok.inj hrule
    exact ⟨(finished_html inner).1, fun _ => (finished_html inner).2⟩
  · obtain rfl : PlainText.rule .document = rule := Except.ok.inj hrule
    exact ⟨finished_body inner, fun hkey => absurd hkey (by decide)⟩

/-- Blank lines, an indented item, and code that ends in blank lines. -/
def ragged : Tree := Tree.empty.grow [(0, { kind := .plain, content := "\n\n" }),
  (0, { kind := .unorderedList, level := 2 }),
  (2, { kind := .unorderedItem, level := 2 }), (3, { kind := .plain, content := "x" }),
  (0, { kind := .code, content := "y\n\n" })]

theorem finished_render_ragged :
    Markdown.table.render .empty ragged = .ok "  * x\n\n```\ny\n```\n" ∧
      Finished "  * x\n\n```\ny\n```\n".toList ∧
      Html.table.render .empty ragged =
        .ok "<ul>\n<li>x</li>\n</ul>\n<pre><code>y</code></pre>\n" ∧
      Finished "<ul>\n<li>x</li>\n</ul>\n<pre><code>y</code></pre>\n".toList ∧
      finishDocument (finishDocument "\n \n".toList) = finishDocument "\n \n".toList := by
  have hbuilt : ragged.Built := .grow .empty (by decide)
  have hmarkdown : Markdown.table.render .empty ragged = .ok "  * x\n\n```\ny\n```\n" := by rfl
  have hhtml : Html.table.render .empty ragged =
      .ok "<ul>\n<li>x</li>\n</ul>\n<pre><code>y</code></pre>\n" := by rfl
  obtain ⟨htwice, hfinished⟩ := finished_render
  exact ⟨hmarkdown, (hfinished ragged hbuilt .empty _ _ (by simp) hmarkdown).1, hhtml,
    (hfinished ragged hbuilt .empty _ _ (by simp) hhtml).1, htwice _⟩

end RuleTable

end RichText
