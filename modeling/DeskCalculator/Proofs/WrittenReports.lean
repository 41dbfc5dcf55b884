import DeskCalculator.Proofs.BatchRows
import DeskCalculator.Proofs.WrittenTables

/-!
# Writing a report and filling it again

The report on a table that was read is itself a table that survives writing and reading, but for carriage
returns (`writable_addResults`): it has at least the three columns of results, and no value, no display and
no kind of error has a null character. What is read from it has the columns of the first table where they
stood (`column?_asTexts_addResults`), and with the same results filled in it is written as before
(`lines_addResults`).
-/

namespace DeskCalculator

/-! ## Texts of numbers -/

/-- Significant digits are no null characters. -/
theorem Decimal.notMem_significant (d : Decimal) : '\x00' ∉ d.significant := by
  intro hmem
  rw [significant, List.mem_reverse] at hmem
  exact Table.notMem_toDigits _ (List.mem_reverse.1 ((List.dropWhile_suffix _).subset hmem))

namespace Layout

/-- Signs are no null characters. -/
theorem notMem_sign (negative : Bool) : '\x00' ∉ sign negative := by
  cases negative <;> decide

/-- The exponent of a number has no null character. -/
theorem notMem_exponentPart (width : Nat) (e : Int) : '\x00' ∉ exponentPart width e := by
  have hsign : '\x00' ≠ if e < 0 then '-' else '+' := by split <;> decide
  simp [exponentPart, Table.notMem_toDigits, hsign]

/-- The digits around a point have no null character, if what follows a whole number has none. -/
theorem notMem_positionalDigits {afterWhole : List Char} (h : '\x00' ∉ afterWhole) (d : Decimal) :
    '\x00' ∉ positionalDigits afterWhole d := by
  have hdigits := d.notMem_significant
  have htake : '\x00' ∉ d.significant.take d.point.toNat := fun hmem => hdigits (List.mem_of_mem_take hmem)
  have hdrop : '\x00' ∉ d.significant.drop d.point.toNat := fun hmem => hdigits (List.mem_of_mem_drop hmem)
  unfold positionalDigits
  simp only
  split_ifs <;> simp [h, hdigits, htake, hdrop]

/-- The digits before an exponent have no null character. -/
theorem notMem_exponentDigits (d : Decimal) : '\x00' ∉ exponentDigits d := by
  have hdigits := d.notMem_significant
  unfold exponentDigits
  simp only [List.mem_append, notMem_exponentPart, or_false]
  split
  next heq =>
    rw [heq] at hdigits
    simpa using hdigits
  next => exact hdigits

/-- No layout of a number has a null character, if what follows a whole number has none. -/
theorem notMem_text {l : Layout} (h : '\x00' ∉ l.afterWhole) (x : Float) :
    '\x00' ∉ (l.text x).toList := by
  unfold text
  split
  next => decide
  next negative => simp [notMem_sign]
  next negative m q =>
    simp only [String.toList_ofList, List.mem_append, notMem_sign, false_or]
    unfold decimal
    split
    · exact notMem_positionalDigits h _
    · exact notMem_exponentDigits _

end Layout

/-- The display with an exponent has no null character. -/
theorem notMem_exponential (places : Nat) (negative : Bool) (m : Nat) (q : Int) :
    '\x00' ∉ (exponential places negative m q).toList := by
  unfold exponential
  simp only [String.toList_ofList, List.mem_append, List.mem_cons, Layout.notMem_sign,
    Layout.notMem_exponentPart, false_or, or_false]
  generalize hdigits : (if m = 0 then List.replicate (places + 1) '0' else Decimal.digits _) = digits
  have hnull : '\x00' ∉ digits := by
    rw [← hdigits]
    split
    · simp
    · exact Table.notMem_toDigits _
  rintro (hmem | hmem | hmem)
  · exact hnull (List.mem_of_mem_take hmem)
  · exact absurd hmem (by decide)
  · exact hnull (List.mem_of_mem_drop hmem)

namespace Display

/-- The text of a whole number has no null character. -/
theorem notMem_wholeText (negative : Bool) (n : Nat) : '\x00' ∉ (wholeText negative n).toList := by
  simp [wholeText, Layout.notMem_sign, Table.notMem_toDigits]

/-- No display has a null character. -/
theorem notMem_text {d : Display} {x : Float} {text : String} (h : d.text x = .ok text) :
    '\x00' ∉ text.toList := by
  have hfixed : '\x00' ∉ (d.fixedText x).toList := by
    unfold fixedText
    simp only
    split
    · exact notMem_wholeText _ _
    · split
      · exact notMem_wholeText _ _
      · exact Layout.notMem_text (by decide) _
  unfold Display.text at h
  split at h
  next =>
    obtain rfl := Except.ok.inj h
    decide
  next =>
    obtain rfl := Except.ok.inj h
    decide
  next =>
    split_ifs at h
    · obtain rfl := Except.ok.inj h
      exact notMem_exponential _ _ _ _
    · obtain rfl := Except.ok.inj h
      exact hfixed

end Display

/-- A cell with a number has no null character. -/
theorem Table.notMem_cellText_number (x : Float) : '\x00' ∉ cellText (.number x) := by
  unfold cellText
  simp only
  split
  · simp
  · exact Layout.notMem_text (by decide) x

namespace Batch

variable {s : Settings} {r : Request} {table : Table} {results : List RowResult} {e next : Evaluator}
  {expressionPlace modePlace : Option Nat}

/-! ## Texts of results -/

/-- A result has no null character in its display and its error. -/
theorem RowResult.notMem_of_ofOutcome {outcome : Outcome} {x : RowResult}
    (h : RowResult.ofOutcome s outcome = .ok x) :
    '\x00' ∉ x.display.toList ∧ '\x00' ∉ x.error.toList := by
  rw [← RowResult.presents_iff] at h
  cases outcome with
  | ok value =>
    obtain ⟨-, hdisplay, herror⟩ := h
    rw [herror]
    exact ⟨Display.notMem_text hdisplay, by decide⟩
  | error error =>
    obtain ⟨-, hdisplay, herror⟩ := h
    rw [hdisplay, herror]
    exact ⟨by decide, by cases error.kind <;> decide⟩

/-- The result of a row presents an outcome. -/
theorem exists_ofOutcome_of_evaluateRow {row : List Cell} {x : RowResult}
    (h : (evaluateRow s r expressionPlace modePlace e row).1 = .ok x) :
    ∃ outcome, RowResult.ofOutcome s outcome = .ok x := by
  unfold evaluateRow at h
  simp only at h
  split at h
  · cases h
  · split at h
    · cases h
    next outcome _ _ =>
      split at h
      · cases h
      next hx =>
        obtain rfl := Except.ok.inj h
        exact ⟨outcome, hx⟩

/-- Each row that is evaluated has a result, and it presents an outcome. -/
theorem length_of_evaluateRows {rows : List (List Cell)}
    (h : (evaluateRows s r expressionPlace modePlace e rows).1 = .ok results) :
    results.length = rows.length ∧
      ∀ x ∈ results, ∃ outcome, RowResult.ofOutcome s outcome = .ok x := by
  induction rows generalizing e results with
  | nil =>
    obtain rfl := Except.ok.inj h
    simp
  | cons row rows ih =>
    unfold evaluateRows at h
    split at h
    · cases h
    next result after hrow =>
      split at h
      · cases h
      next rest last hrest =>
        obtain rfl := Except.ok.inj h
        obtain ⟨hlength, houtcomes⟩ := ih (congrArg Prod.fst hrest)
        have hresult := exists_ofOutcome_of_evaluateRow (congrArg Prod.fst hrow)
        exact ⟨by rw [List.length_cons, List.length_cons, hlength],
          List.forall_mem_cons.2 ⟨hresult, houtcomes⟩⟩

/-! ## The table of a report -/

/-- A report on a rectangular table is rectangular. -/
theorem rectangular_addResults (htable : table.Rectangular) (results : List RowResult) :
    (addResults table results).Rectangular :=
  ((htable.setColumn _ _).setColumn _ _).setColumn _ _

/-- The cells of a report are those of the table and those of the results. -/
theorem notMem_cellText_addResults (htable : table.Readable)
    (hresults : ∀ x ∈ results, ∃ outcome, RowResult.ofOutcome s outcome = .ok x) :
    ∀ row ∈ (addResults table results).rows, ∀ cell ∈ row, '\x00' ∉ Table.cellText cell := by
  intro row hrow cell hcell
  rw [rows_addResults, ← List.map_uncurry_zip_eq_zipWith] at hrow
  obtain ⟨⟨source, x⟩, hmem, rfl⟩ := List.mem_map.1 hrow
  obtain ⟨hsource, hx⟩ := List.of_mem_zip hmem
  obtain ⟨outcome, houtcome⟩ := hresults x hx
  obtain ⟨hdisplay, herror⟩ := RowResult.notMem_of_ofOutcome houtcome
  rcases Table.mem_or_eq_of_mem_rowWith hcell with hcell | rfl
  · rcases Table.mem_or_eq_of_mem_rowWith hcell with hcell | rfl
    · rcases Table.mem_or_eq_of_mem_rowWith hcell with hcell | rfl
      · obtain ⟨text, rfl, htext⟩ := htable.texts source hsource cell hcell
        exact htext
      · exact Table.notMem_cellText_number x.value
    · exact hdisplay
  · exact herror

/-- A column of a report is one of the table or one of results. -/
theorem mem_or_mem_of_mem_columns_addResults {name : String}
    (h : name ∈ (addResults table results).columns) : name ∈ table.columns ∨ name ∈ resultColumns := by
  rw [columns_addResults, List.mem_append] at h
  exact h.imp_right fun hname => (List.mem_filter.1 hname).1

/-- The rows of a report on a table that was read survive writing and reading if all carriage returns are
quoted. -/
theorem separable_addResults (htable : table.Readable)
    (hresults : ∀ x ∈ results, ∃ outcome, RowResult.ofOutcome s outcome = .ok x)
    (hreturns : ∀ text ∈ (addResults table results).writtenTexts,
      '\r' ∈ text → text.any Table.needsQuotes = true) :
    (addResults table results).Separable := by
  constructor
  · exact rectangular_addResults htable.rectangular results
  · have hsubset : resultColumns ⊆ (addResults table results).columns := by
      intro name hname
      rw [columns_addResults, List.mem_append, List.mem_filter, decide_eq_true_eq]
      tauto
    have hlength := List.Nodup.length_le_of_subset (by decide) hsubset
    exact le_trans (by decide) hlength
  · intro text htext
    refine ⟨?_, hreturns text htext⟩
    rw [Table.writtenTexts, List.mem_append, List.mem_map, List.mem_flatMap] at htext
    obtain ⟨name, hname, rfl⟩ | ⟨row, hrow, hcell⟩ := htext
    · rcases mem_or_mem_of_mem_columns_addResults hname with hmem | hmem
      · exact htable.names name hmem
      · fin_cases hmem <;> decide
    · obtain ⟨cell, hmem, rfl⟩ := List.mem_map.1 hcell
      exact notMem_cellText_addResults htable hresults row hrow cell hmem

/-- A report on a table that was read survives writing and reading if all carriage returns are quoted and no
column begins with a byte order mark. -/
theorem writable_addResults (htable : table.Readable)
    (hresults : ∀ x ∈ results, ∃ outcome, RowResult.ofOutcome s outcome = .ok x)
    (hmark : ∀ name ∈ table.columns, name.toList.head? ≠ some '\uFEFF')
    (hreturns : ∀ text ∈ (addResults table results).writtenTexts,
      '\r' ∈ text → text.any Table.needsQuotes = true) :
    (addResults table results).Writable where
  toSeparable := separable_addResults htable hresults hreturns
  nodup := by
    rw [columns_addResults]
    refine htable.nodup.append (List.Nodup.filter _ (by decide)) ?_
    intro name hname hadded
    exact absurd hname (by simpa using (List.mem_filter.1 hadded).2)
  named := by
    intro hempty
    rcases mem_or_mem_of_mem_columns_addResults hempty with hmem | hmem
    · exact htable.named hmem
    · exact absurd hmem (by decide)
  unmarked := by
    intro name hname
    rcases mem_or_mem_of_mem_columns_addResults hname with hmem | hmem
    · exact hmark name hmem
    · fin_cases hmem <;> decide

/-! ## Filling a report again -/

/-- The columns of the table are found where they were. -/
theorem place?_addResults_of_notMem {name : String} (hname : name ∉ resultColumns) :
    (addResults table results).place? name = table.place? name := by
  simp only [resultColumns, List.mem_cons, List.not_mem_nil, or_false, not_or] at hname
  simp only [addResults, Table.setColumn_eq, Table.place?]
  rw [Table.findIdx?_namesWith_of_ne hname.2.2, Table.findIdx?_namesWith_of_ne hname.2.1,
    Table.findIdx?_namesWith_of_ne hname.1]

/-- The columns of the table have the cells that they had. -/
theorem column?_addResults_of_notMem (htable : table.Rectangular)
    (hlength : results.length = table.rows.length) {name : String} (hname : name ∉ resultColumns) :
    (addResults table results).column? name = table.column? name := by
  obtain ⟨-, -, -, hkept⟩ := filled_addResults htable hlength
  rw [Table.column?, Table.column?, place?_addResults_of_notMem hname]
  cases hplace : table.place? name with
  | none => rfl
  | some place =>
    have hcells := hkept place name (Table.getElem?_of_findIdx?_eq_some hplace) hname
    exact congrArg some hcells

/-- What is read from a report has the columns of the table that was read first, apart from those with
results. -/
theorem column?_asTexts_addResults (htable : table.Readable)
    (hlength : results.length = table.rows.length) {name : String} (hname : name ∉ resultColumns) :
    (addResults table results).asTexts.column? name = table.column? name := by
  calc (addResults table results).asTexts.column? name
      = ((addResults table results).column? name).map (·.map Table.asText) :=
        Table.column?_asTexts (rectangular_addResults htable.rectangular results) name
    _ = (table.column? name).map (·.map Table.asText) := by
        rw [column?_addResults_of_notMem htable.rectangular hlength hname]
    _ = table.column? name := by
        rw [← Table.column?_asTexts htable.rectangular, htable.asTexts_eq]

/-- Results may be filled into columns that have their texts already. -/
theorem lines_addResults_of_texts {t : Table} (h : t.Rectangular) (hlength : results.length = t.rows.length)
    (hvalues : t.column? "value" = some (results.map fun x => Table.asText (.number x.value)))
    (hdisplays : t.column? "display" = some (results.map fun x => Table.asText (.text x.display)))
    (herrors : t.column? "error" = some (results.map fun x => Table.asText (.text x.error))) :
    (addResults t results).lines = t.lines := by
  obtain ⟨valued, hvalued⟩ : ∃ v, v = t.setColumn "value" (results.map fun x => .number x.value) :=
    ⟨_, rfl⟩
  obtain ⟨shown, hshown⟩ : ∃ v, v = valued.setColumn "display" (results.map fun x => .text x.display) :=
    ⟨_, rfl⟩
  have hcells : ∀ f : RowResult → Cell, (results.map f).length = t.rows.length := by
    intro f
    rw [List.length_map, hlength]
  have hcells' : ∀ f : RowResult → Cell, (results.map f).length = valued.rows.length := by
    intro f
    rw [hvalued, Table.length_rows_setColumn (hcells _), hcells]
  have hrect : valued.Rectangular := hvalued ▸ h.setColumn _ _
  have hshownErrors : shown.column? "error" = t.column? "error" := by
    rw [hshown, Table.column?_setColumn_of_ne hrect (hcells' _) (by decide), hvalued,
      Table.column?_setColumn_of_ne h (hcells _) (by decide)]
  have hvaluedDisplays : valued.column? "display" = t.column? "display" := by
    rw [hvalued, Table.column?_setColumn_of_ne h (hcells _) (by decide)]
  calc (addResults t results).lines
      = shown.lines := by
        rw [addResults, ← hvalued, ← hshown]
        exact Table.lines_setColumn (hshownErrors.trans herrors) (by simp)
    _ = valued.lines := by
        rw [hshown]
        exact Table.lines_setColumn (hvaluedDisplays.trans hdisplays) (by simp)
    _ = t.lines := by
        rw [hvalued]
        exact Table.lines_setColumn hvalues (by simp)

/-- A report that was read back and has the same results filled in is written as before. -/
theorem lines_addResults (htable : table.Rectangular) (hlength : results.length = table.rows.length) :
    (addResults (addResults table results).asTexts results).lines = (addResults table results).lines := by
  obtain ⟨hvalues, hdisplays, herrors, -⟩ := filled_addResults htable hlength
  have hrect := rectangular_addResults htable results
  have hrows : results.length = (addResults table results).asTexts.rows.length := by
    rw [Table.asTexts, List.length_map, rows_addResults, List.length_zipWith, hlength, Nat.min_self]
  rw [lines_addResults_of_texts hrect.asTexts hrows, Table.lines_asTexts]
  · rw [Table.column?_asTexts hrect, hvalues]
    simp
  · rw [Table.column?_asTexts hrect, hdisplays]
    simp
  · rw [Table.column?_asTexts hrect, herrors]
    simp

end Batch

end DeskCalculator
