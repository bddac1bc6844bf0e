import Mathlib.Data.List.Induction
import RichText.Proofs.Render.Containers
import RichText.Proofs.Text.Nonblank

/-!
Code in Markdown, and reading it back. Code is written as it is between delimiters that do not
depend on it: three backticks around lines, and one backtick around a text without line breaks. So
it is read back exactly if the delimiter that closes it is not in the code itself.
-/
namespace RichText

namespace Markdown
open RichText.Tree

/-- Whether a line closes a fenced block: at most three spaces, then at least three backticks, and
then only spaces. -/
def closesFence (line : List Char) : Bool :=
  let marks := line.dropWhile (· = ' ')
  (line.takeWhile (· = ' ')).length ≤ 3 && 3 ≤ (marks.takeWhile (· = '\x60')).length &&
    (marks.dropWhile (· = '\x60')).all (· = ' ')

/-- The lines up to the first one that closes a fenced block, and the lines behind that. -/
def closeBlock : List (List Char) → Option (List (List Char) × List (List Char))
  | [] => none
  | line :: lines =>
    if closesFence line then some ([], lines)
    else (closeBlock lines).map fun p => (line :: p.1, p.2)

/-- The lines in the fenced block that a text begins with, and the lines behind it. -/
def readBlock (text : List Char) : Option (List (List Char) × List (List Char)) :=
  match text.splitOn '\n' with
  | [] => none
  | first :: lines => if first = "```".toList then closeBlock lines else none

/-- The text up to the first run of exactly `n` backticks, and what is behind that, if there are
`run` backticks before the text. -/
def closeSpan (n : Nat) : Nat → List Char → Option (List Char × List Char)
  | run, [] => if run = n then some ([], []) else none
  | run, c :: cs =>
    if c = '\x60' then closeSpan n (run + 1) cs
    else if run = n then some ([], c :: cs)
    else (closeSpan n 0 cs).map fun p => (List.replicate run '\x60' ++ c :: p.1, p.2)

/-- The text in the span of code that a text begins with, and the text behind it. The span ends at
the next run of as many backticks as it begins with. -/
def readSpan (text : List Char) : Option (List Char × List Char) :=
  let n := (text.takeWhile (· = '\x60')).length
  if n = 0 then none else closeSpan n 0 (text.dropWhile (· = '\x60'))

/-- The lines of a text, without the empty ones at the end. -/
def blockLines (text : List Char) : List (List Char) :=
  match dropEndWhile (· = '\n') text with
  | [] => []
  | c :: cs => (c :: cs).splitOn '\n'

theorem map_fst_eq_some_iff {α β : Type} {f : α → α} (hf : Function.Injective f)
    {o : Option (α × β)} {a : α} {b : β} :
    o.map (fun p => (f p.1, p.2)) = some (f a, b) ↔ o = some (a, b) := by
  simp [Option.map_eq_some_iff, Prod.ext_iff, hf.eq_iff]

theorem closesFence_nil : closesFence [] = false := by decide

/-- The lines without the empty ones at the end close a fenced block if the lines do. -/
theorem forall_blockLines_iff (text : List Char) :
    (∀ line ∈ blockLines text, closesFence line = false) ↔
      ∀ line ∈ text.splitOn '\n', closesFence line = false := by
  have hkept : (∀ line ∈ blockLines text, closesFence line = false) ↔
      ∀ line ∈ (dropEndWhile (· = '\n') text).splitOn '\n', closesFence line = false := by
    rw [blockLines]
    cases dropEndWhile (· = '\n') text with
    | nil => simp [closesFence_nil]
    | cons c cs => rfl
  rw [hkept]
  clear hkept
  induction text using List.reverseRecOn with
  | nil => rfl
  | append_singleton cs c ih =>
    rw [dropEndWhile_concat]
    split_ifs with hc
    · obtain rfl : c = '\n' := of_decide_eq_true hc
      refine ih.trans ?_
      rw [List.splitOn_append_cons_self, List.splitOn_nil]
      simp [or_imp, forall_and, closesFence_nil]
    · rfl

/-- Code of several lines is written as these lines between two fences, and an empty line. -/
theorem splitOn_closeCode {text : List Char} (h : '\n' ∈ text) :
    (closeCode (openCode text)).splitOn '\n' =
      "```".toList :: (blockLines text ++ ["```".toList, [], []]) := by
  have hclose : closeCode (openCode text) =
      dropEndWhile (· = '\n') ("```\n".toList ++ text) ++ '\n' :: "```\n\n".toList := by
    rw [openCode, if_pos h, closeCode, if_pos (List.mem_append_right _ h)]
    rfl
  rw [hclose, List.splitOn_append_cons_self, dropEndWhile_append, blockLines]
  cases dropEndWhile (· = '\n') text with
  | nil => decide
  | cons c cs =>
    have hfirst : "```\n".toList ++ c :: cs = "```".toList ++ '\n' :: (c :: cs) := rfl
    have hfence : "```".toList.splitOn '\n' = ["```".toList] := by decide
    have hlast : "```\n\n".toList.splitOn '\n' = ["```".toList, [], []] := by decide
    rw [if_neg (List.cons_ne_nil c cs), hfirst, List.splitOn_append_cons_self, hfence, hlast]
    rfl

/-- In front of a line that closes the block, lines are read exactly if none of them closes it. -/
theorem closeBlock_append_iff {fence : List Char} (hfence : closesFence fence)
    (lines behind : List (List Char)) :
    closeBlock (lines ++ fence :: behind) = some (lines, behind) ↔
      ∀ line ∈ lines, closesFence line = false := by
  induction lines with
  | nil => simp [closeBlock, hfence]
  | cons line lines ih =>
    rw [List.cons_append, closeBlock]
    split_ifs with hline
    · simp [hline]
    · rw [map_fst_eq_some_iff (List.cons_injective (a := line)), ih]
      simp [hline]

/-- A fenced block is read back exactly if no line of the code closes it. -/
theorem readBlock_closeCode_iff {text : List Char} (h : '\n' ∈ text) :
    readBlock (closeCode (openCode text)) = some (blockLines text, [[], []]) ↔
      ∀ line ∈ text.splitOn '\n', closesFence line = false := by
  have hfence : closesFence "```".toList := by decide
  rw [← forall_blockLines_iff, readBlock, splitOn_closeCode h]
  exact closeBlock_append_iff hfence (blockLines text) [[], []]

/-- Reading takes the inside, the run that closes it, and the rest. -/
theorem length_of_closeSpan {n run : Nat} {cs inside behind : List Char}
    (h : closeSpan n run cs = some (inside, behind)) :
    run + cs.length = inside.length + n + behind.length := by
  induction cs generalizing run inside with
  | nil =>
    rw [closeSpan] at h
    split_ifs at h with hrun
    cases h
    simp [hrun]
  | cons c cs ih =>
    rw [closeSpan] at h
    split_ifs at h with hc hrun
    · have hlength := ih h
      rw [List.length_cons]
      omega
    · cases h
      simp [hrun]
    · obtain ⟨p, hp, heq⟩ := Option.map_eq_some_iff.1 h
      cases heq
      have hlength := ih hp
      simp only [List.length_append, List.length_replicate, List.length_cons]
      omega

/-- A run of backticks ends at the next other character. -/
theorem splitOnP_replicate_append (run : Nat) {c : Char} (hc : c ≠ '\x60') (cs : List Char) :
    (List.replicate run '\x60' ++ c :: cs).splitOnP (· ≠ '\x60') =
      List.replicate run '\x60' :: cs.splitOnP (· ≠ '\x60') := by
  rw [List.splitOnP_append_cons _ _ (by simpa using hc), List.splitOnP_eq_singleton (by simp)]
  rfl

/-- In front of one backtick at the end, a span of one backtick ends there exactly if no run of
backticks before it consists of one, and none stands directly before it. -/
theorem closeSpan_one_iff (run : Nat) (cs : List Char) :
    closeSpan 1 run (cs ++ ['\x60']) = some (List.replicate run '\x60' ++ cs, []) ↔
      (List.replicate run '\x60' ++ cs).getLast? ≠ some '\x60' ∧
        ['\x60'] ∉ (List.replicate run '\x60' ++ cs).splitOnP (· ≠ '\x60') := by
  induction cs generalizing run with
  | nil =>
    rw [List.nil_append, closeSpan, if_pos rfl, closeSpan, List.append_nil]
    cases run with
    | zero => simp
    | succ run => simp [List.getLast?_replicate]
  | cons c cs ih =>
    rw [List.cons_append, closeSpan]
    by_cases hc : c = '\x60'
    · have hmove : List.replicate run '\x60' ++ c :: cs =
          List.replicate (run + 1) '\x60' ++ cs := by
        rw [hc, List.replicate_succ', List.append_assoc, List.singleton_append]
      rw [if_pos hc, hmove, ih]
    · -- The run ends here, and the rest is read with no backticks before it.
      have hlast : (List.replicate run '\x60' ++ c :: cs).getLast? ≠ some '\x60' ↔
          cs.getLast? ≠ some '\x60' := by
        rw [List.getLast?_append, List.getLast?_cons]
        cases cs.getLast? <;> simp [hc]
      have hrest := ih 0
      rw [List.replicate_zero, List.nil_append] at hrest
      rw [if_neg hc, splitOnP_replicate_append run hc, hlast, List.mem_cons, not_or]
      split_ifs with hrun
      · simp [hrun]
      · have hne : ['\x60'] ≠ List.replicate run '\x60' := by
          intro heq
          exact hrun (by simpa using (congrArg List.length heq).symm)
        have hinj : Function.Injective fun inside => List.replicate run '\x60' ++ c :: inside :=
          fun as bs hab => List.cons_injective (List.append_cancel_left hab)
        rw [(map_fst_eq_some_iff hinj).trans hrest]
        simp [hne]

/-- In front of a backtick, more than one of them begin the span, and as many would have to end
it. -/
theorem readSpan_ne_of_backtick (cs : List Char) :
    readSpan ('\x60' :: ('\x60' :: cs ++ ['\x60'])) ≠ some ('\x60' :: cs, []) := by
  intro hread
  rw [readSpan, if_neg (by simp)] at hread
  have hspan := length_of_closeSpan hread
  have htext := congrArg List.length (List.takeWhile_append_dropWhile
    (p := (· = '\x60')) (l := '\x60' :: ('\x60' :: cs ++ ['\x60'])))
  have htwo : 2 ≤ (('\x60' :: ('\x60' :: cs ++ ['\x60'])).takeWhile (· = '\x60')).length := by
    simp
  simp only [List.length_append, List.length_cons, List.length_nil] at hspan htext
  omega

/-- Between two backticks a text is read back exactly if it neither begins nor ends with a backtick
and no run of backticks in it consists of one. -/
theorem readSpan_iff {text : List Char} (h : text ≠ []) :
    readSpan ('\x60' :: (text ++ ['\x60'])) = some (text, []) ↔
      text.head? ≠ some '\x60' ∧ text.getLast? ≠ some '\x60' ∧
        ['\x60'] ∉ text.splitOnP (· ≠ '\x60') := by
  cases text with
  | nil => exact absurd rfl h
  | cons c cs =>
    by_cases hc : c = '\x60'
    · subst hc
      simp only [List.head?_cons, ne_eq, not_true_eq_false, false_and, iff_false]
      exact readSpan_ne_of_backtick cs
    · have hrest := closeSpan_one_iff 0 (c :: cs)
      rw [List.replicate_zero, List.nil_append] at hrest
      rw [readSpan, List.takeWhile_cons_of_pos (by simp), List.dropWhile_cons_of_pos (by simp),
        List.cons_append, List.takeWhile_cons_of_neg (by simpa using hc),
        List.dropWhile_cons_of_neg (by simpa using hc), ← List.cons_append]
      simpa [hc] using hrest

theorem softened_ne_nil {content : String} (h : content ≠ "") :
    content.toList.flatMap softBreak ≠ [] := by
  obtain ⟨c, cs, hcs⟩ := List.exists_cons_of_ne_nil (mt String.toList_eq_nil_iff.1 h)
  rw [hcs, List.flatMap_cons, softBreak]
  split <;> simp

/-- Whatever else there is at the node, text in it is written between the delimiters. -/
theorem finish_code (nested : Bool) (d : Node) {text : List Char} (h : text ≠ []) :
    (rule .code).finish nested d text = closeCode (openCode text) := by
  have hcontent : ((rule .code).inside text).isEmpty = false := List.isEmpty_eq_false_iff.2 h
  have haround : (rule .code).around nested d text = closeCode (openCode text) := by
    rw [Rule.around]
    cases d.url <;> simp only [rule, Rule.wraps, ite_self, if_true]
  rw [Rule.finish_eq, hcontent, Bool.and_false, if_neg Bool.false_ne_true]
  exact haround

/-- Code without anything below it is written between its delimiters, without escapes. -/
theorem renderTree_code {s : Tree} (hk : s.kind = .code) (hleaf : s.children = [])
    (hobject : s.data.objectId = none) (hcontent : s.data.content ≠ "") (files : Manifest)
    (nested raw : Bool) : table.renderTree files nested raw s =
      .ok (closeCode (openCode (s.data.content.toList.flatMap softBreak))) := by
  cases s with
  | node i d ts =>
    rw [kind_node] at hk
    rw [children_node] at hleaf
    rw [data_node] at hobject hcontent
    have hrule : table.rule .code = .ok (rule .code) := rfl
    have hraw : (raw || (rule .code).raw) = true := Bool.or_true raw
    have hliteral : (rule .code).literal true d.content = d.content.toList.flatMap softBreak := by
      rw [Rule.literal, if_neg hcontent]
      rfl
    simp only [RuleTable.renderTree, hk, hrule, hobject, hleaf, RuleTable.renderAll, bind,
      Except.bind, pure, Except.pure]
    rw [hraw, hliteral, joinRendered, List.append_nil, finish_code nested d
      (softened_ne_nil hcontent), data_node]

/-- The markdown of code that is not empty is one construct that holds the code, exactly if no line
of it closes a fenced block or, of code without line breaks, if it neither begins nor ends with a
backtick and no run of backticks in it consists of one. -/
theorem code_read_back {t s : Tree} {n : Nat} (h : t.get? n = some s) (hk : s.kind = .code)
    (hleaf : s.children = []) (hobject : s.data.objectId = none) (hcontent : s.data.content ≠ "")
    {c : List Char} (hc : s.data.content.toList.flatMap softBreak = c) (files : Manifest) :
    ∃ text, table.renderAt? files t n = some (.ok (String.ofList text)) ∧
      ('\n' ∈ c → (readBlock text = some (blockLines c, [[], []]) ↔
        ∀ line ∈ c.splitOn '\n', closesFence line = false)) ∧
      ('\n' ∉ c → (readSpan text = some (c, []) ↔
        c.head? ≠ some '\x60' ∧ c.getLast? ≠ some '\x60' ∧
          ['\x60'] ∉ c.splitOnP (· ≠ '\x60'))) := by
  refine ⟨closeCode (openCode c), ?_, readBlock_closeCode_iff, fun hline => ?_⟩
  · obtain ⟨p, hp, rfl⟩ := Option.map_eq_some_iff.1 h
    rw [RuleTable.renderAt?, hp, Option.map_some, renderTree_code hk hleaf hobject hcontent, hc]
    rfl
  have hne : c ≠ [] := hc ▸ softened_ne_nil hcontent
  have htext : closeCode (openCode c) = '\x60' :: (c ++ ['\x60']) := by
    rw [openCode, if_neg hline, closeCode, if_neg (by simpa using hline), List.cons_append]
  rw [htext]
  exact readSpan_iff hne

end Markdown

/-- Code of several lines, with backticks in a line and an indented fence, and code of one line. -/
def Document.coded : Document :=
  ({} : Document)
    |>.addParagraph (.addRun {} (.inFont "a ```\n    ```\n\n" "Consolas"))
    |>.addParagraph (.ofText "p")
    |>.addParagraph (.addRun {} (.inFont "b `` c" "Consolas"))

open Markdown in
theorem Document.code_read_back_coded : ∃ t text line, coded.tree {} = .ok t ∧
    table.renderAt? .empty t 1 = some (.ok (String.ofList text)) ∧
    readBlock text = some (["a ```".toList, "    ```".toList], [[], []]) ∧
    table.renderAt? .empty t 4 = some (.ok (String.ofList line)) ∧
    readSpan line = some ("b `` c".toList, []) := by
  have hnodes : (coded.tree {}).map (fun t => [1, 4].map fun n =>
      (t.get? n).map fun s => (s.data, s.children.isEmpty)) =
        .ok [some ({ kind := .code, content := "a ```\n    ```\n\n" }, true),
          some ({ kind := .code, content := "b `` c" }, true)] := by
    decide +kernel
  obtain ⟨t, ht⟩ : ∃ t, coded.tree {} = .ok t := ⟨_, rfl⟩
  rw [ht, Except.map, Except.ok.injEq, List.map_cons, List.map_singleton, List.cons.injEq,
    List.singleton_inj, Option.map_eq_some_iff, Option.map_eq_some_iff] at hnodes
  obtain ⟨⟨s, hs, hsdata⟩, u, hu, hudata⟩ := hnodes
  rw [Prod.mk.injEq, List.isEmpty_iff] at hsdata hudata
  obtain ⟨text, htext, hblock, -⟩ := code_read_back hs (by rw [Tree.kind, hsdata.1]) hsdata.2
    (by rw [hsdata.1]) (by rw [hsdata.1]; decide)
    (show _ = "a ```\n    ```\n\n".toList by rw [hsdata.1]; decide) .empty
  obtain ⟨line, hline, -, hspan⟩ := code_read_back hu (by rw [Tree.kind, hudata.1]) hudata.2
    (by rw [hudata.1]) (by rw [hudata.1]; decide)
    (show _ = "b `` c".toList by rw [hudata.1]; decide) .empty
  have hlines : blockLines "a ```\n    ```\n\n".toList = ["a ```".toList, "    ```".toList] := by
    decide
  rw [hlines] at hblock
  exact ⟨t, text, line, ht, htext, (hblock (by decide)).2 (by decide), hline,
    (hspan (by decide)).2 (by decide)⟩

/-- Code of several lines with a fence in it, and code of one line with one backtick in it. -/
def Document.escaping : Document :=
  ({} : Document)
    |>.addParagraph (.addRun {} (.inFont "x\n```\ny\n" "Consolas"))
    |>.addParagraph (.ofText "p")
    |>.addParagraph (.addRun {} (.inFont "a`b" "Consolas"))

open Markdown in
/-- The fence in the code ends the block, so that the last line of the code is behind it, and the
backtick ends the span. -/
theorem Document.code_escaping :
    (escaping.tree {}).map (fun t => [1, 4].map fun n =>
      (t.get? n).map fun s => (s.kind, s.data.content)) =
        .ok [some (.code, "x\n```\ny\n"), some (.code, "a`b")] ∧
    (escaping.tree {}).map (fun t => [1, 4].map fun n => table.renderAt? .empty t n) =
      .ok [some (.ok "```\nx\n```\ny\n```\n\n"), some (.ok "`a`b`")] ∧
    readBlock "```\nx\n```\ny\n```\n\n".toList =
      some (["x".toList], ["y".toList, "```".toList, [], []]) ∧
    readSpan "`a`b`".toList = some ("a".toList, "b`".toList) := by
  refine ⟨?_, ?_, ?_, ?_⟩ <;> decide +kernel

end RichText
