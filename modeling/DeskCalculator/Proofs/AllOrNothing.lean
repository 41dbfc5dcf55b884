import DeskCalculator.CommandLine.Run
import DeskCalculator.Proofs.WrittenReports

/-!
# All or nothing

A row that has no value is a row of the output like any other. Only one thing in a table breaks a run off:
a row that names an angle mode which there is not (`Batch.Request.unknownMode?`), whatever its expression is.
Then nothing is written, and the first of these rows is named. Otherwise the report is written, packed if the
path says so, and the exit code says whether all rows have a value (`CommandLine.runBatch_allOrNothing`).

When the file is read again it has one row for each row of the table, in order. This takes the condition on
carriage returns that running a batch on its own output takes: without quotes one ends the line, and then a
row of the table is read as two (`CommandLine.runBatch_bareReturn_ne`).
-/

namespace DeskCalculator

namespace Batch

variable {s : Settings} {r : Request} {table : Table} {row : List Cell} {rows : List (List Cell)}
  {e : Evaluator} {name : String}

/-! ## Modes that there are not -/

/-- The mode that a row names, if there is no such mode. -/
def Request.unknownMode? (r : Request) (s : Settings) (table : Table) (row : List Cell) :
    Option String :=
  match table.cellOf (r.modes s) row with
  | .text name => if Text.allBlank name || (AngleMode.ofName? name).isSome then none else some name
  | _ => none

/-- An unknown mode is a text that is not blank and not the name of a mode. -/
theorem Request.unknownMode?_eq_some_iff :
    r.unknownMode? s table row = some name ↔
      table.cellOf (r.modes s) row = .text name ∧ Text.allBlank name = false ∧
        AngleMode.ofName? name = none := by
  unfold Request.unknownMode?
  cases table.cellOf (r.modes s) row with
  | missing => simp
  | number => simp
  | text name' =>
    simp only [Option.ite_none_left_eq_some, Bool.or_eq_true, not_or, Bool.not_eq_true, Option.some.injEq,
      Option.isSome_eq_false_iff, Option.isNone_iff_eq_none, Cell.text.injEq]
    constructor
    · rintro ⟨⟨hblank, hmode⟩, rfl⟩
      exact ⟨rfl, hblank, hmode⟩
    · rintro ⟨rfl, hblank, hmode⟩
      exact ⟨⟨hblank, hmode⟩, rfl⟩

/-- A row that names no unknown mode asks for something. -/
theorem Request.exists_asked?_of_unknownMode? {text : String} (own : AngleMode)
    (htext : table.cellOf (r.expressions s) row = .text text)
    (hunknown : r.unknownMode? s table row = none)
    (hmode : ∀ choice ∈ r.mode, ∃ mode, AngleMode.Choice.mode? choice = some mode) :
    ∃ asked, r.asked? s own table row = some asked := by
  refine Request.exists_asked?_eq own htext (fun name hcell hblank => ?_) hmode
  cases hname : AngleMode.ofName? name with
  | some mode => exact ⟨mode, rfl⟩
  | none => rw [Request.unknownMode?_eq_some_iff.2 ⟨hcell, hblank, hname⟩] at hunknown; cases hunknown

/-- A row that names an unknown mode is refused before its expression is looked at. -/
theorem evaluateRow_of_unknownMode? {text : String}
    (htext : table.cellOf (r.expressions s) row = .text text)
    (h : r.unknownMode? s table row = some name) :
    evaluateRow s r (table.place? (r.expressions s)) (table.place? (r.modes s)) e row =
      (.error (.fault (.unknownAngleMode (.name name))), e) := by
  obtain ⟨hcell, hblank, hname⟩ := Request.unknownMode?_eq_some_iff.1 h
  obtain ⟨place, hplace, -⟩ := exists_place_of_cellOf_eq htext
  have hmode : rowMode r (table.cellOf (r.modes s) row) = some (.name name) := by
    rw [hcell, rowMode, hblank, if_neg Bool.false_ne_true]
  have hrefused : e.modeFor (some (.name name)) = .error (.unknownAngleMode (.name name)) := by
    simp only [Evaluator.modeFor, AngleMode.Choice.mode, AngleMode.Choice.mode?, hname]
  unfold Table.cellOf at hmode
  simp only [evaluateRow, hplace, hmode, Evaluator.evaluate, hrefused]

/-- A batch stops at the first row that names an unknown mode. -/
theorem evaluateRows_of_unknownMode? (h : e.Coherent) (hsound : s.flaw? = none)
    (hmode : ∀ choice ∈ r.mode, ∃ mode, AngleMode.Choice.mode? choice = some mode)
    (htext : ∀ row ∈ rows, ∃ text, table.cellOf (r.expressions s) row = .text text)
    (hfirst : rows.findSome? (r.unknownMode? s table) = some name) :
    (evaluateRows s r (table.place? (r.expressions s)) (table.place? (r.modes s)) e rows).1 =
      .error (.fault (.unknownAngleMode (.name name))) := by
  induction rows generalizing e with
  | nil => cases hfirst
  | cons row rows ih =>
    obtain ⟨text, hrow⟩ := htext row List.mem_cons_self
    rw [List.findSome?_cons] at hfirst
    cases hunknown : r.unknownMode? s table row with
    | some name' =>
      rw [hunknown] at hfirst
      obtain rfl := Option.some.inj hfirst
      simp only [evaluateRows, evaluateRow_of_unknownMode? hrow hunknown]
    | none =>
      rw [hunknown] at hfirst
      -- this row is evaluated, with or without a value, and the batch goes on
      obtain ⟨asked, hasked⟩ := Request.exists_asked?_of_unknownMode? e.mode hrow hunknown hmode
      obtain ⟨x, next, heval, -, hnext, -⟩ := exists_evaluateRow_eq h hsound hasked
      have hrest := ih hnext (fun row hrow => htext row (List.mem_cons_of_mem _ hrow)) hfirst
      simp only [evaluateRows, heval]
      split
      next hrun => rwa [hrun] at hrest
      next hrun =>
        rw [hrun] at hrest
        cases hrest

/-! ## Loaded tables -/

/-- A table that is accepted has a text for each expression. -/
theorem exists_text_of_load {content : String} (h : load s r content = .ok table) :
    ∀ row ∈ table.rows, ∃ text, table.cellOf (r.expressions s) row = .text text := by
  obtain ⟨hread, hcolumn⟩ := load_eq_ok_iff.1 h
  obtain ⟨place, hplace, htexts⟩ := (Table.readable_of_read hread).exists_cellAt_eq hcolumn
  intro row hrow
  obtain ⟨text, htext⟩ := htexts row hrow
  exact ⟨text, by rw [Table.cellOf, hplace]; exact htext⟩

/-! ## Rows with a value -/

/-- Whether the expression of a row has a value in the mode of the row. -/
def Request.HasValue (r : Request) (s : Settings) (own : AngleMode) (table : Table) (row : List Cell) :
    Prop :=
  ∃ text mode value, r.asked? s own table row = some (text, mode) ∧
    Expression.evaluate s.arithmetic mode text = .ok value

variable {own : AngleMode} {results : List RowResult}

/-- The error of a row is empty exactly if its expression has a value. -/
theorem Answered.isEmpty_error_iff {x : RowResult} (h : Answered s r own table row x) :
    x.error.isEmpty = true ↔ r.HasValue s own table row := by
  obtain ⟨text, mode, hasked, hx⟩ := h
  cases houtcome : Expression.evaluate s.arithmetic mode text with
  | ok value =>
    rw [houtcome] at hx
    refine iff_of_true ?_ ⟨text, mode, value, hasked, houtcome⟩
    rw [hx.2.2]
    rfl
  | error error =>
    rw [houtcome] at hx
    refine iff_of_false ?_ ?_
    · rw [hx.2.2]
      cases error.kind <;> decide
    · rintro ⟨text', mode', value, hasked', hvalue⟩
      obtain ⟨rfl, rfl⟩ := Prod.mk.inj (Option.some.inj (hasked'.symm.trans hasked))
      rw [houtcome] at hvalue
      cases hvalue

/-- A batch has succeeded exactly if every row has a value. -/
theorem all_isEmpty_error_iff (h : List.Forall₂ (Answered s r own table) rows results) :
    (results.all fun x => x.error.isEmpty) = true ↔ ∀ row ∈ rows, r.HasValue s own table row := by
  induction h with
  | nil => simp
  | cons hrow _ ih => rw [List.all_cons, Bool.and_eq_true, hrow.isEmpty_error_iff, ih, List.forall_mem_cons]

/-- The row that is read where the result of a row was written. -/
def WrittenRow (s : Settings) (r : Request) (own : AngleMode) (table : Table) (row cells : List Cell) :
    Prop :=
  ∃ x, Answered s r own table row x ∧ cells = (x.addedTo table.columns row).map Table.asText

/-- The rows of a report, as they are read, belong to those of the table one by one. -/
theorem forall₂_writtenRow (h : List.Forall₂ (Answered s r own table) table.rows results) :
    List.Forall₂ (WrittenRow s r own table) table.rows (addResults table results).asTexts.rows := by
  rw [Table.asTexts, rows_addResults, List.map_zipWith]
  generalize table.rows = rows at h
  induction h with
  | nil => exact .nil
  | cons hrow _ ih => exact .cons ⟨_, hrow, rfl⟩ ih

/-- Answers present outcomes. -/
theorem exists_ofOutcome_of_answered (h : List.Forall₂ (Answered s r own table) rows results) :
    ∀ x ∈ results, ∃ outcome, RowResult.ofOutcome s outcome = .ok x := by
  induction h with
  | nil => simp
  | cons hrow _ ih =>
    obtain ⟨text, mode, -, hpresents⟩ := hrow
    exact List.forall_mem_cons.2 ⟨⟨_, RowResult.presents_iff.1 hpresents⟩, ih⟩

/-- A written report is read with one row for each row of the table, in order, if all carriage returns are
quoted. -/
theorem exists_read_of_answered (htable : table.Readable)
    (h : List.Forall₂ (Answered s r own table) table.rows results)
    (hreturns : ∀ text ∈ (addResults table results).writtenTexts,
      '\r' ∈ text → text.any Table.needsQuotes = true) :
    ∃ written, Table.read (addResults table results).write = .ok written ∧
      List.Forall₂ (WrittenRow s r own table) table.rows written.rows := by
  obtain ⟨header, -, hread⟩ :=
    Table.exists_read_write (separable_addResults htable (exists_ofOutcome_of_answered h) hreturns)
  exact ⟨_, hread, forall₂_writtenRow h⟩

/-- A table that is accepted and names no unknown mode is evaluated, with an answer for every row. -/
theorem exists_evaluate_eq (hsound : s.flaw? = none) {content : String}
    (hload : load s r content = .ok table)
    (hmode : ∀ choice ∈ r.mode, ∃ mode, AngleMode.Choice.mode? choice = some mode)
    (hnone : table.rows.findSome? (r.unknownMode? s table) = none) :
    ∃ own results, ownMode? s r none = some own ∧
      List.Forall₂ (Answered s r own table) table.rows results ∧
      evaluate s r table = .ok ⟨addResults table results, results⟩ := by
  obtain ⟨e, hcoherent, hown, hevaluate⟩ :=
    exists_evaluateAt_eq hsound (show ∀ e ∈ (none : Option Evaluator), e.Coherent by simp) hmode
  have hasked : ∀ row ∈ table.rows, ∃ asked, r.asked? s e.mode table row = some asked := by
    intro row hrow
    obtain ⟨text, htext⟩ := exists_text_of_load hload row hrow
    exact Request.exists_asked?_of_unknownMode? e.mode htext (List.findSome?_eq_none_iff.1 hnone row hrow)
      hmode
  obtain ⟨results, next, hrun, hresults, -, -⟩ := exists_evaluateWith_eq hcoherent hsound table hasked
  exact ⟨e.mode, results, hown, hresults, (hevaluate table).trans (congrArg Prod.fst hrun)⟩

/-- A table that is accepted stops the batch at its first unknown mode. -/
theorem evaluate_of_unknownMode? (hsound : s.flaw? = none) {content : String}
    (hload : load s r content = .ok table)
    (hmode : ∀ choice ∈ r.mode, ∃ mode, AngleMode.Choice.mode? choice = some mode)
    (hfirst : table.rows.findSome? (r.unknownMode? s table) = some name) :
    evaluate s r table = .error (.fault (.unknownAngleMode (.name name))) := by
  obtain ⟨e, hcoherent, -, hevaluate⟩ :=
    exists_evaluateAt_eq hsound (show ∀ e ∈ (none : Option Evaluator), e.Coherent by simp) hmode
  have hstop := evaluateRows_of_unknownMode? hcoherent hsound hmode (exists_text_of_load hload) hfirst
  refine (hevaluate table).trans ?_
  rw [evaluateWith]
  split
  next hrun =>
    rw [hrun] at hstop
    exact congrArg Except.error (Except.error.inj hstop)
  next hrun =>
    rw [hrun] at hstop
    cases hstop

end Batch

namespace CommandLine

open Batch

variable {s : Settings} {r : Request} {table : Table} {tree : FileTree} {input content : String}

/-- Finding the place of the output is no evaluation. -/
theorem outputPlace_ne_stop (tree : FileTree) (path : String) (stop : Stop) :
    outputPlace tree path ≠ .error (.stop stop) := by
  unfold outputPlace
  simp only
  split
  · simp
  · split
    · simp
    · split <;> simp
  · simp

/-- A run on a table with an unknown mode ends with the name of the first one, and writes nothing. -/
theorem runBatch_of_unknownMode? (hsound : s.flaw? = none) (hread : readText tree input = .ok content)
    (output : String) (hload : load s r content = .ok table)
    (hmode : ∀ choice ∈ r.mode, ∃ mode, AngleMode.Choice.mode? choice = some mode) {name : String}
    (hfirst : table.rows.findSome? (r.unknownMode? s table) = some name) :
    runBatch s r input output tree =
      ⟨.failure (.stop (.fault (.unknownAngleMode (.name name)))), "", []⟩ := by
  simp only [runBatch, hread, hload, evaluate_of_unknownMode? hsound hload hmode hfirst]
  rfl

/-- A report that was made is written if there is a place for it, and its exit code says whether all rows
have a value. -/
theorem exists_runBatch_eq {own : AngleMode} {results : List RowResult}
    (hread : readText tree input = .ok content) (hload : load s r content = .ok table)
    (hevaluate : evaluate s r table = .ok ⟨addResults table results, results⟩)
    (hresults : List.Forall₂ (Answered s r own table) table.rows results) {output : String} {place : Path}
    (hplace : outputPlace tree output = .ok place) :
    ∃ code, runBatch s r input output tree =
        ⟨.code code, "", [⟨place.text, (addResults table results).write, Packing.ofPath? output⟩]⟩ ∧
      (code = 0 ∨ code = 1) ∧ (code = 0 ↔ ∀ row ∈ table.rows, r.HasValue s own table row) := by
  refine ⟨if (results.all fun x => x.error.isEmpty) = true then 0 else 1, ?_, ?_, ?_⟩
  · simp only [runBatch, hread, hload, hevaluate, hplace]
    rfl
  · split
    · exact .inl rfl
    · exact .inr rfl
  · rw [← all_isEmpty_error_iff hresults]
    split <;> simp_all

/-- A table that names no unknown mode does not break a run off. -/
theorem runBatch_ne_stop (hsound : s.flaw? = none) (hread : readText tree input = .ok content)
    (output : String) (hload : load s r content = .ok table)
    (hmode : ∀ choice ∈ r.mode, ∃ mode, AngleMode.Choice.mode? choice = some mode)
    (hnone : table.rows.findSome? (r.unknownMode? s table) = none) (stop : Stop) :
    (runBatch s r input output tree).ending ≠ .failure (.stop stop) := by
  obtain ⟨own, results, -, hresults, hevaluate⟩ := exists_evaluate_eq hsound hload hmode hnone
  cases hplace : outputPlace tree output with
  | ok place =>
    obtain ⟨code, hrun, -⟩ := exists_runBatch_eq hread hload hevaluate hresults hplace
    simp [hrun]
  | error failure =>
    simp only [runBatch, hread, hload, hevaluate, hplace, Result.failed]
    intro hstop
    exact outputPlace_ne_stop tree output stop
      (hplace.trans (congrArg Except.error (End.failure.inj hstop)))

/-- A batch run is all or nothing. On a table that is accepted it stops exactly if some row names an unknown
mode; then it names the first such mode and writes nothing. Otherwise it writes the report of all rows, as
long as there is a place for the output, and its code is zero exactly if every row has a value. What was
written is read with one row for each row of the table, in order, if all carriage returns are quoted. -/
theorem runBatch_allOrNothing (hsound : s.flaw? = none) (hread : readText tree input = .ok content)
    (output : String) (hload : load s r content = .ok table)
    (hmode : ∀ choice ∈ r.mode, ∃ mode, AngleMode.Choice.mode? choice = some mode) :
    ((∃ stop, (runBatch s r input output tree).ending = .failure (.stop stop)) ↔
        ∃ row ∈ table.rows, ∃ name, r.unknownMode? s table row = some name) ∧
      (∀ name, table.rows.findSome? (r.unknownMode? s table) = some name →
        runBatch s r input output tree =
          ⟨.failure (.stop (.fault (.unknownAngleMode (.name name)))), "", []⟩) ∧
      (table.rows.findSome? (r.unknownMode? s table) = none →
        ∃ own report, ownMode? s r none = some own ∧ evaluate s r table = .ok report ∧
          report.RowWise s r own table ∧
          (∀ place, outputPlace tree output = .ok place →
            ∃ code, runBatch s r input output tree =
                ⟨.code code, "", [⟨place.text, report.table.write, Packing.ofPath? output⟩]⟩ ∧
              (code = 0 ∨ code = 1) ∧ (code = 0 ↔ ∀ row ∈ table.rows, r.HasValue s own table row)) ∧
          ((∀ text ∈ report.table.writtenTexts, '\r' ∈ text → text.any Table.needsQuotes = true) →
            ∃ written, Table.read report.table.write = .ok written ∧
              List.Forall₂ (WrittenRow s r own table) table.rows written.rows)) := by
  have hstop : ∀ name, table.rows.findSome? (r.unknownMode? s table) = some name →
      runBatch s r input output tree =
        ⟨.failure (.stop (.fault (.unknownAngleMode (.name name)))), "", []⟩ := fun name =>
    runBatch_of_unknownMode? hsound hread output hload hmode
  refine ⟨⟨?_, ?_⟩, hstop, ?_⟩
  · rintro ⟨stop, hending⟩
    cases hfirst : table.rows.findSome? (r.unknownMode? s table) with
    | some name =>
      obtain ⟨row, hrow, hname⟩ := List.exists_of_findSome?_eq_some hfirst
      exact ⟨row, hrow, name, hname⟩
    | none => exact absurd hending (runBatch_ne_stop hsound hread output hload hmode hfirst stop)
  · rintro ⟨row, hrow, name, hname⟩
    cases hfirst : table.rows.findSome? (r.unknownMode? s table) with
    | some name => exact ⟨_, by rw [hstop name hfirst]⟩
    | none =>
      rw [List.findSome?_eq_none_iff.1 hfirst row hrow] at hname
      cases hname
  · intro hnone
    have htable := Table.readable_of_read (load_eq_ok_iff.1 hload).1
    obtain ⟨own, results, hown, hresults, hevaluate⟩ := exists_evaluate_eq hsound hload hmode hnone
    exact ⟨own, _, hown, hevaluate, rowWise_of_answered htable.rectangular hresults,
      fun place hplace => exists_runBatch_eq hread hload hevaluate hresults hplace,
      exists_read_of_answered htable hresults⟩

/-- A file with rows of all kinds, and one in which two rows name modes that there are not, the first of them
without an expression. -/
def twoFiles : FileTree where
  files := [("served.csv", "expression,angle_mode\ntan(45),deg\n1/,\n,Rad\n"),
    ("refused.csv", "angle_mode,expression\n,1/\n grad\ngon,2\n")]
  directories := []

/-- What the first of the two files holds. -/
def served : Table where
  columns := ["expression", "angle_mode"]
  rows := [[.text "tan(45)", .text "deg"], [.text "1/", .text ""], [.text "", .text "Rad"]]

/-- What the second of the two files holds. -/
def refused : Table where
  columns := ["angle_mode", "expression"]
  rows := [[.text "", .text "1/"], [.text " grad", .text ""], [.text "gon", .text "2"]]

/-- What is written for the first of the two files. -/
def servedOutput : String :=
  "expression,angle_mode,value,display,error\ntan(45),deg,0.9999999999999999,1,\n" ++
    "1/,,,Error,InvalidExpression\n,Rad,0.0,0,\n"

/-- One file is refused for the first of its two unknown modes, in a row without an expression. Of the other
one every row is written, and a row without a value sets the exit code. -/
theorem runBatch_allOrNothing_twoFiles :
    Settings.standard.flaw? = none ∧
      runBatch .standard inRadians "refused.csv" "out.csv" twoFiles =
        ⟨.failure (.stop (.fault (.unknownAngleMode (.name " grad")))), "", []⟩ ∧
      runBatch .standard inRadians "served.csv" "out.csv" twoFiles =
        ⟨.code 1, "", [⟨"out.csv", servedOutput, none⟩]⟩ ∧
      ∃ written, Table.read servedOutput = .ok written ∧ written.rows.length = 3 := by
  have hsound : Settings.standard.flaw? = none := by decide +kernel
  have hmode : ∀ choice ∈ inRadians.mode, ∃ mode, AngleMode.Choice.mode? choice = some mode := by
    rintro choice ⟨⟩
    exact ⟨.radians, by decide +kernel⟩
  have hreadRefused : readText twoFiles "refused.csv" = .ok "angle_mode,expression\n,1/\n grad\ngon,2\n" := by
    decide +kernel
  have hrefused : load .standard inRadians "angle_mode,expression\n,1/\n grad\ngon,2\n" = .ok refused := by
    decide +kernel
  have hreadServed : readText twoFiles "served.csv" =
      .ok "expression,angle_mode\ntan(45),deg\n1/,\n,Rad\n" := by decide +kernel
  have hserved : load .standard inRadians "expression,angle_mode\ntan(45),deg\n1/,\n,Rad\n" = .ok served := by
    decide +kernel
  have hplace : outputPlace twoFiles "out.csv" = .ok (Path.ofText "out.csv") := by decide +kernel
  have hcomputed : (evaluate .standard inRadians served).toOption.map (fun report =>
      (report.table.write,
        report.table.writtenTexts.all fun text => !text.contains '\r' || text.any Table.needsQuotes)) =
      some (servedOutput, true) := by
    decide +kernel
  obtain ⟨-, hstop, -⟩ := runBatch_allOrNothing hsound hreadRefused "out.csv" hrefused hmode
  obtain ⟨-, -, hwhole⟩ := runBatch_allOrNothing hsound hreadServed "out.csv" hserved hmode
  obtain ⟨own, report, hown, hreport, -, hwritten, hrows⟩ := hwhole (by decide +kernel)
  obtain ⟨code, hrun, hcode, hvalues⟩ := hwritten _ hplace
  rw [hreport] at hcomputed
  obtain ⟨htext, hreturns⟩ : _ ∧ _ := by
    simpa only [Except.toOption, Option.map_some, Option.some.injEq, Prod.mk.injEq] using hcomputed
  obtain ⟨written, hagain, hlines⟩ := hrows (Table.quoted_of_all hreturns)
  have hone : code ≠ 0 := by
    -- the second row has no value
    intro hzero
    obtain ⟨text, mode, value, hasked, hvalue⟩ := hvalues.1 hzero [.text "1/", .text ""] (by simp [served])
    obtain rfl : AngleMode.radians = own := Option.some.inj hown
    have hasked' : inRadians.asked? .standard .radians served [.text "1/", .text ""] =
        some ("1/", .radians) := by decide +kernel
    obtain ⟨rfl, rfl⟩ := Prod.mk.inj (Option.some.inj (hasked'.symm.trans hasked))
    have herror : (Expression.evaluate .ieee .radians "1/").isOk = false := by decide +kernel
    rw [show Expression.evaluate .ieee .radians "1/" = .ok value from hvalue] at herror
    cases herror
  rw [htext] at hrun hagain
  have hfile : (⟨(Path.ofText "out.csv").text, servedOutput, Packing.ofPath? "out.csv"⟩ : WrittenFile) =
      ⟨"out.csv", servedOutput, none⟩ := by decide +kernel
  rw [hcode.resolve_left hone, hfile] at hrun
  exact ⟨hsound, hstop " grad" (by decide +kernel), hrun, written, hagain, hlines.length_eq.symm⟩

/-- A file with one row, whose expression holds a carriage return. -/
def returnFile : FileTree where
  files := [("in.csv", "expression\n\"1+\r2\"\n")]
  directories := []

/-- Without quotes the carriage return ends a line, so one row is read again as two. Apart from the rows, a
run may break off because there is no place for its output. -/
theorem runBatch_bareReturn_ne :
    (load .standard inRadians "expression\n\"1+\r2\"\n").toOption.map (·.rows.length) = some 1 ∧
      runBatch .standard inRadians "in.csv" "out.csv" returnFile =
        ⟨.code 0, "", [⟨"out.csv", "expression,value,display,error\n1+\r2,3.0,3,\n", none⟩]⟩ ∧
      (Table.read "expression,value,display,error\n1+\r2,3.0,3,\n").toOption.map (·.rows.length) = some 2 ∧
      runBatch .standard inRadians "in.csv" "missing/out.csv" returnFile =
        ⟨.failure (.noDirectory "missing"), "", []⟩ := by
  decide +kernel

end CommandLine

end DeskCalculator
