import Mathlib.Data.List.DropRight
import RichText.Proofs.Render.Containers
import RichText.Proofs.Text.Nonblank

/-!
Rows of tables in plain text. Every cell writes a tab behind its text and the row drops the tabs at
its end, so that there is one tab between two cells. A cell is trimmed before its tab is written:
what the row drops is never a part of a cell, and no cell moves into another column.
-/
namespace RichText

namespace PlainText

/-- The texts of a row with tabs between them, without the empty texts at the end. -/
def rowLine (texts : List (List Char)) : List Char :=
  ['\t'].intercalate (texts.rdropWhile List.isEmpty)

theorem intercalate_concat (a : Char) (texts : List (List Char)) (text : List Char) :
    [a].intercalate (texts ++ [text]) = texts.flatMap (· ++ [a]) ++ text := by
  induction texts with
  | nil => simp
  | cons first texts ih =>
    rw [List.cons_append, List.intercalate_cons_of_ne_nil (by simp), ih, List.flatMap_cons,
      List.append_assoc (first ++ [a])]

/-- Behind texts that do not end in a tab only the tabs of the empty texts at the end are
dropped. -/
theorem dropEndWhile_cells {texts : List (List Char)}
    (h : ∀ text ∈ texts, text.getLast? ≠ some '\t') :
    dropEndWhile (· = '\t') (texts.flatMap (· ++ ['\t'])) = rowLine texts := by
  induction texts using List.reverseRecOn with
  | nil => rfl
  | append_singleton texts text ih =>
    simp only [List.mem_append, List.mem_singleton, or_imp, forall_and, forall_eq] at h
    rw [List.flatMap_append, List.flatMap_singleton, ← List.append_assoc, dropEndWhile_concat,
      if_pos (by simp), rowLine]
    cases text using List.reverseRecOn with
    | nil =>
      -- The row ends before an empty cell.
      rw [List.append_nil, ih h.1, List.rdropWhile_concat_pos _ _ _ rfl, rowLine]
    | append_singleton cs c _ =>
      have hc : c ≠ '\t' := by simpa using h.2
      rw [← List.append_assoc, dropEndWhile_concat, if_neg (by simpa using hc),
        List.rdropWhile_concat_neg _ _ _ (by simp), intercalate_concat, List.append_assoc]

/-- The texts are those that are kept, and empty ones behind them. -/
theorem exists_rdropWhile_append (texts : List (List Char)) :
    ∃ n, texts.rdropWhile List.isEmpty ++ List.replicate n [] = texts := by
  refine ⟨(texts.rtakeWhile List.isEmpty).length, ?_⟩
  have hdropped : texts.rtakeWhile List.isEmpty =
      List.replicate (texts.rtakeWhile List.isEmpty).length [] :=
    List.eq_replicate_of_mem fun text htext => List.isEmpty_iff.1 (List.mem_rtakeWhile_imp htext)
  rw [← hdropped, List.rdropWhile_append_rtakeWhile]

/-- Without tabs in the cells, what stands in a column of the line is the text of the cell there. -/
theorem getD_splitOn_rowLine {texts : List (List Char)} (h : ∀ text ∈ texts, '\t' ∉ text)
    (i : Nat) : ((rowLine texts).splitOn '\t').getD i [] = texts.getD i [] := by
  obtain ⟨n, htexts⟩ := exists_rdropWhile_append texts
  rw [rowLine]
  generalize texts.rdropWhile List.isEmpty = kept at htexts
  subst htexts
  have hcolumn : (kept ++ List.replicate n []).getD i [] = kept.getD i [] := by
    rw [List.getD_eq_getElem?_getD, List.getD_eq_getElem?_getD, List.getElem?_append,
      List.getElem?_replicate]
    split_ifs with hi
    · rfl
    · rw [List.getElem?_eq_none (by omega)]
      rfl
    · rw [List.getElem?_eq_none (by omega)]
  rw [hcolumn]
  cases kept with
  | nil => cases i <;> rfl
  | cons text kept =>
    rw [List.splitOn_intercalate '\t' (fun k hk => h k (List.mem_append_left _ hk)) (by simp)]

open RichText.Tree

/-- What stands in a row or in a cell is of another kind, and is not padded. -/
theorem ne_and_leftPad_of_mayHold {k c : Kind} (hk : k = .tableRow ∨ k = .tableCell)
    (h : k.mayHold c) : c ≠ k ∧ (rule c).leftPad = false := by
  rcases hk with rfl | rfl <;> cases c <;> first | exact ⟨by decide, rfl⟩ | cases h

/-- Inside a row or a cell there are the texts of what stands under it, without spaces between
them. -/
theorem writeTree_row_or_cell (files : Manifest) {s : Tree} (h : s.Fits)
    (hk : s.kind = .tableRow ∨ s.kind = .tableCell) (nested raw : Bool) :
    writeTree rule files nested raw s = (rule s.kind).finish nested s.data
      (s.children.flatMap (writeTree rule files false raw)) := by
  have hplain : s.kind.isInline = false ∧ s.kind ≠ .code ∧ (rule s.kind).raw = false := by
    rcases hk with hk | hk <;> rw [hk] <;> exact ⟨rfl, by decide, rfl⟩
  obtain ⟨hline, hcode, hraw⟩ := hplain
  obtain ⟨-, hobject, hcontent⟩ := h.of_not_isInline hline hcode
  have hchildren : ∀ c ∈ s.children, c.kind ≠ s.kind ∧ (rule c.kind).leftPad = false :=
    fun c hc => ne_and_leftPad_of_mayHold hk (h.children c hc)
  have hchild : ∀ c ∈ s.children, writeTree rule files (c.kind = s.kind) raw c =
      writeTree rule files false raw c := by
    intro c hc
    rw [decide_eq_false (hchildren c hc).1]
  rw [writeTree_of_leftPad files hobject hcontent fun c hc => (hchildren c hc).2, hraw,
    Bool.or_false, List.flatMap_congr hchild]

/-- The text of a cell with these blocks. -/
def cellText (blocks : List String) : List Char := trim (String.join blocks).toList

/-- No cell ends in a tab, since a tab is blank. -/
theorem getLast?_cellText (blocks : List String) : (cellText blocks).getLast? ≠ some '\t' := by
  intro h
  have htab : isBlank '\t' = false := getLast?_trim h
  revert htab
  decide

/-- The blocks in a cell, as they are written there. -/
def writeBlocks (files : Manifest) (cell : Tree) : List String :=
  cell.children.map fun c => String.ofList (writeTree rule files false false c)

/-- A cell writes its text and a tab. -/
theorem writeTree_cell (files : Manifest) {cell : Tree} (h : cell.Fits)
    (hk : cell.kind = .tableCell) :
    writeTree rule files false false cell = cellText (writeBlocks files cell) ++ ['\t'] := by
  have hurl := (h.of_not_isInline (by rw [hk]; rfl) (by rw [hk]; decide)).1
  rw [writeTree_row_or_cell files h (.inr hk), hk, Rule.finish_eq,
    Rule.around_eq_of_plain (fun _ _ => rfl) (fun _ _ => rfl) hurl, cellText, writeBlocks,
    join_map_ofList, String.toList_ofList]
  rfl

/-- A row drops the tabs behind the last cell with a text, and ends the line. -/
theorem writeTree_row (files : Manifest) {row : Tree} (h : row.Everywhere Fits)
    (hk : row.kind = .tableRow) :
    writeTree rule files false false row =
      rowLine ((row.children.map (writeBlocks files)).map cellText) ++ ['\n'] := by
  have hurl := (h.self.of_not_isInline (by rw [hk]; rfl) (by rw [hk]; decide)).1
  have hcells : row.children.flatMap (writeTree rule files false false) =
      ((row.children.map (writeBlocks files)).map cellText).flatMap (· ++ ['\t']) := by
    rw [List.map_map, List.flatMap_map]
    exact List.flatMap_congr fun cell hc =>
      writeTree_cell files (h.child hc).self (h.self.grammatical.cells hk cell hc)
  rw [writeTree_row_or_cell files h.self (.inl hk), hk, Rule.finish_eq,
    Rule.around_eq_of_plain (fun _ _ => rfl) (fun _ _ => rfl) hurl, hcells, ← dropEndWhile_cells]
  · rfl
  · intro text htext
    obtain ⟨blocks, -, rfl⟩ := List.mem_map.1 htext
    exact getLast?_cellText blocks

section
variable {t row : Tree} (h : t.Everywhere Fits) (hids : t.ids.Nodup) (hrow : row ∈ t.preorder)
  (hk : row.kind = .tableRow) (files : Manifest)
include h hids hrow hk

theorem renderAt?_blocks :
    row.children.map (fun cell => cell.children.map fun c => table.renderAt? files t c.id) =
      (row.children.map (writeBlocks files)).map (List.map fun block => some (.ok block)) := by
  rw [List.map_map]
  refine List.map_congr_left fun cell hcell => ?_
  have hmem := mem_preorder_of_mem_children hrow hcell
  have hcellkind := (h row hrow).grammatical.cells hk cell hcell
  rw [Function.comp_apply, writeBlocks, List.map_map]
  refine List.map_congr_left fun c hc => ?_
  have hne := (ne_and_leftPad_of_mayHold (.inr hcellkind) ((h cell hmem).children c hc)).1
  exact renderAt?_child listRules files "txt" h hids hmem hc hne.symm

theorem renderAt?_row (hroot : t.kind = .document) :
    table.renderAt? files t row.id = some (.ok (String.ofList
      (rowLine ((row.children.map (writeBlocks files)).map cellText) ++ ['\n']))) := by
  obtain rfl | ⟨above, habove, hr⟩ := eq_or_mem_children hrow
  · rw [hroot] at hk
    cases hk
  · have hne : above.kind ≠ row.kind := by
      intro heq
      have hheld := (h above habove).children row hr
      rw [heq, hk] at hheld
      cases hheld
    rw [← writeTree_row files (h.of_mem hrow) hk]
    exact renderAt?_child listRules files "txt" h hids habove hr hne

end

end PlainText

open PlainText RichText.Tree in
/-- In plain text a row of a table is the trimmed texts of its cells with one tab between two of
them, without the empty ones at the end, and a line break, whatever is in the cells and whatever
files there are. If there is no tab in the cells, they stand in the columns between the tabs. -/
theorem Document.render_row {d : Document} {o : Options} {t : Tree} (h : d.tree o = .ok t)
    {row : Tree} (hrow : row ∈ t.preorder) (hk : row.kind = .tableRow) (files : Manifest) :
    ∃ cells : List (List String),
      row.children.map (fun cell => cell.children.map fun c => table.renderAt? files t c.id) =
        cells.map (List.map fun block => some (.ok block)) ∧
      table.renderAt? files t row.id =
        some (.ok (String.ofList (rowLine (cells.map cellText) ++ ['\n']))) ∧
      ((∀ cell ∈ cells, '\t' ∉ cellText cell) → ∀ i,
        ((rowLine (cells.map cellText)).splitOn '\t').getD i [] =
          (cells.map cellText).getD i []) := by
  have hfits := everywhere_fits h
  have hids := nodup_ids_tree h
  refine ⟨row.children.map (writeBlocks files), ?_, ?_, ?_⟩
  · exact renderAt?_blocks hfits hids hrow hk files
  · exact renderAt?_row hfits hids hrow hk files (kind_tree h)
  · intro htabs
    exact getD_splitOn_rowLine (List.forall_mem_map.2 htabs)

/-- A row with empty cells in front, inside and at the end, and with a cell of two paragraphs. -/
def Document.tabular : Document :=
  ({} : Document).addTable (Table.addRow {} [[], Element.cellOfText "a", Element.cellOfText " ",
    Element.cellOfText "b" ++ Element.cellOfText "c", Element.cellOfText ""])

open PlainText in
theorem Document.render_row_tabular : ∃ t row, tabular.tree {} = .ok t ∧ row ∈ t.preorder ∧
    row.kind = .tableRow ∧
    row.children.map (fun cell => cell.children.map fun c => table.renderAt? .empty t c.id) =
      [[], ["a\n\n"], [""], ["b\n\n", "c\n\n"], [""]].map
        (List.map fun block => some (.ok block)) ∧
    table.renderAt? .empty t row.id = some (.ok "\ta\t\tb\n\nc\n") ∧
    ∀ i, ("\ta\t\tb\n\nc".toList.splitOn '\t').getD i [] =
      [[], "a".toList, [], "b\n\nc".toList, []].getD i [] := by
  have hkinds : (tabular.tree {}).map (fun t =>
      (t.children.flatMap Tree.children).map Tree.kind) = .ok [.tableRow] := by
    decide +kernel
  have hvalues : (tabular.tree {}).map (fun t => (t.children.flatMap Tree.children).map fun row =>
      row.children.map fun cell => cell.children.map fun c => table.renderAt? .empty t c.id) =
        .ok [[[], ["a\n\n"], [""], ["b\n\n", "c\n\n"], [""]].map
          (List.map fun block => some (.ok block))] := by
    decide +kernel
  obtain ⟨t, ht⟩ : ∃ t, tabular.tree {} = .ok t := ⟨_, rfl⟩
  rw [ht, Except.map, Except.ok.injEq, List.map_eq_singleton_iff] at hkinds
  obtain ⟨row, hrows, hk⟩ := hkinds
  rw [ht, Except.map, Except.ok.injEq, hrows, List.map_singleton, List.singleton_inj] at hvalues
  have hmem : row ∈ t.children.flatMap Tree.children := by
    rw [hrows]
    exact List.mem_singleton_self row
  obtain ⟨above, habove, hrow⟩ := List.mem_flatMap.1 hmem
  have hrow : row ∈ t.preorder := Tree.mem_preorder_of_mem_children
    (Tree.mem_preorder_of_mem_children t.self_mem_preorder habove) hrow
  obtain ⟨cells, hcells, hline, hcolumns⟩ := render_row ht hrow hk .empty
  have hinj : Function.Injective (List.map fun block : String =>
      (some (.ok block) : Option (Except Error String))) :=
    List.map_injective_iff.2 fun a b hab => by cases hab; rfl
  obtain rfl := List.map_injective_iff.2 hinj (hcells.symm.trans hvalues)
  exact ⟨t, row, ht, hrow, hk, hvalues, hline, hcolumns (by decide)⟩

end RichText
