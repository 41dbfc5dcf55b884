import DeskCalculator.Batch
import DeskCalculator.Proofs.Columns
import DeskCalculator.Proofs.Containment

/-!
# A batch evaluates its rows one by one

All rows of a batch go through one evaluator with one cache, and the mode of a row may come from the row,
from the request or from the evaluator. What a row gets is still a matter of the row alone: the outcome of
its expression in the mode it asks for. `Batch.evaluateAt_rowWise` states this for the columns that a
batch adds, and draws the consequences: the results follow the rows through every permutation, and a table
may be evaluated in pieces.

A batch is served (`Request.Legible`) if every row has a text for its expression, every mode that a row
names is one that there is, and so is the one that the request names.
-/

namespace DeskCalculator

/-- The cell of a row in a column; missing where the table has no such column. -/
def Table.cellOf (t : Table) (column : String) (row : List Cell) : Cell :=
  ((t.place? column).map (cellAt row)).getD .missing

/-- The table with its rows in another order. -/
def Table.permuted (t : Table) (σ : Equiv.Perm (Fin t.rows.length)) : Table :=
  { t with rows := List.ofFn fun i => t.rows[σ i] }

/-- The row at a place of a permuted table is the one that the permutation takes from there. -/
theorem Table.getElem?_rows_permuted (t : Table) (σ : Equiv.Perm (Fin t.rows.length))
    (i : Fin t.rows.length) : (t.permuted σ).rows[(i : Nat)]? = t.rows[(σ i : Nat)]? := by
  rw [permuted, List.getElem?_ofFn, dif_pos i.isLt, List.getElem?_eq_getElem (σ i).isLt]
  rfl

namespace Batch

variable {s : Settings} {r : Request} {own : AngleMode} {table : Table} {row : List Cell}
  {rows : List (List Cell)} {e : Evaluator}

/-! ## What a row asks for -/

/-- The mode of the rows that do not choose one: the one of the request, or else the given one. -/
def Request.standing? (r : Request) (own : AngleMode) : Option AngleMode :=
  match r.mode with
  | some choice => choice.mode?
  | none => some own

/-- The mode of a row with the given cell for its mode. A row chooses a mode by a text that is not blank. -/
def Request.modeOf? (r : Request) (own : AngleMode) : Cell → Option AngleMode
  | .text name => if Text.allBlank name then r.standing? own else AngleMode.ofName? name
  | _ => r.standing? own

/-- The expression and the mode that a row asks for. -/
def Request.asked? (r : Request) (s : Settings) (own : AngleMode) (table : Table) (row : List Cell) :
    Option (String × AngleMode) :=
  match table.cellOf (r.expressions s) row with
  | .text text => (r.modeOf? own (table.cellOf (r.modes s) row)).map (text, ·)
  | _ => none

/-- A request that can be served: all expressions are texts, and all modes that are named exist. -/
structure Request.Legible (r : Request) (s : Settings) (table : Table) : Prop where
  expressions : ∀ row ∈ table.rows, ∃ text, table.cellOf (r.expressions s) row = .text text
  modes : ∀ row ∈ table.rows, ∀ name, table.cellOf (r.modes s) row = .text name →
    Text.allBlank name = false → ∃ mode, AngleMode.ofName? name = some mode
  mode : ∀ choice ∈ r.mode, ∃ mode, choice.mode? = some mode

/-- A row asks for something if its expression is a text and its mode is known. -/
theorem Request.asked?_eq_some_iff {text : String} {mode : AngleMode} :
    r.asked? s own table row = some (text, mode) ↔
      table.cellOf (r.expressions s) row = .text text ∧
        r.modeOf? own (table.cellOf (r.modes s) row) = some mode := by
  unfold Request.asked?
  cases table.cellOf (r.expressions s) row with
  | missing => simp
  | number => simp
  | text text' =>
    simp only [Option.map_eq_some_iff, Prod.mk.injEq, Cell.text.injEq]
    constructor
    · rintro ⟨mode', hmode, rfl, rfl⟩
      exact ⟨rfl, hmode⟩
    · rintro ⟨rfl, hmode⟩
      exact ⟨mode, hmode, rfl, rfl⟩

/-- A blank mode stands for the standing one, and any other has to be a name. -/
theorem Request.modeOf?_text (r : Request) (own : AngleMode) (name : String) :
    r.modeOf? own (.text name) =
      if Text.allBlank name then r.standing? own else AngleMode.ofName? name := rfl

/-- A row asks for something if its expression is a text and the mode that it or the request names exists. -/
theorem Request.exists_asked?_eq {text : String} (own : AngleMode)
    (htext : table.cellOf (r.expressions s) row = .text text)
    (hmodes : ∀ name, table.cellOf (r.modes s) row = .text name → Text.allBlank name = false →
      ∃ mode, AngleMode.ofName? name = some mode)
    (hmode : ∀ choice ∈ r.mode, ∃ mode, AngleMode.Choice.mode? choice = some mode) :
    ∃ asked, r.asked? s own table row = some asked := by
  have hstanding : ∃ mode, r.standing? own = some mode := by
    unfold Request.standing?
    cases hchoice : r.mode with
    | none => exact ⟨own, rfl⟩
    | some choice => exact hmode choice hchoice
  have hmode : ∃ mode, r.modeOf? own (table.cellOf (r.modes s) row) = some mode := by
    cases hcell : table.cellOf (r.modes s) row with
    | missing => exact hstanding
    | number => exact hstanding
    | text name =>
      rw [Request.modeOf?_text]
      cases hblank : Text.allBlank name with
      | true =>
        rw [if_pos rfl]
        exact hstanding
      | false =>
        rw [if_neg Bool.false_ne_true]
        exact hmodes name hcell hblank
  obtain ⟨mode, hmode⟩ := hmode
  exact ⟨(text, mode), Request.asked?_eq_some_iff.2 ⟨htext, hmode⟩⟩

/-- Every row of a legible table asks for something. -/
theorem Request.Legible.exists_asked?_eq (h : r.Legible s table) (own : AngleMode) :
    ∀ row ∈ table.rows, ∃ asked, r.asked? s own table row = some asked := by
  intro row hrow
  obtain ⟨text, htext⟩ := h.expressions row hrow
  exact Request.exists_asked?_eq own htext (h.modes row hrow) h.mode

/-- The mode of a row is that of its choice, if the row or the request makes one. -/
theorem Request.modeOf?_eq (r : Request) (own : AngleMode) (cell : Cell) :
    r.modeOf? own cell = (rowMode r cell).elim (some own) AngleMode.Choice.mode? := by
  have hstanding : r.standing? own = r.mode.elim (some own) AngleMode.Choice.mode? := by
    unfold Request.standing?
    cases r.mode <;> rfl
  cases cell with
  | missing => exact hstanding
  | number => exact hstanding
  | text name =>
    rw [modeOf?_text, rowMode]
    cases Text.allBlank name with
    | true =>
      rw [if_pos rfl, if_pos rfl]
      exact hstanding
    | false =>
      rw [if_neg Bool.false_ne_true, if_neg Bool.false_ne_true, Option.elim_some, AngleMode.Choice.mode?]

/-- The evaluator evaluates a row in the mode of the row. -/
theorem modeFor_rowMode {cell : Cell} {mode : AngleMode} (h : r.modeOf? e.mode cell = some mode) :
    e.modeFor (rowMode r cell) = .ok mode := by
  rw [Request.modeOf?_eq] at h
  unfold Evaluator.modeFor
  cases hchoice : rowMode r cell with
  | none =>
    rw [hchoice] at h
    exact congrArg Except.ok (Option.some.inj h)
  | some choice =>
    rw [hchoice] at h
    have hmode : choice.mode? = some mode := h
    simp only [AngleMode.Choice.mode, hmode]

/-! ## What a row gets -/

/-- The result of a row presents an outcome: a value with its text and no error, or NaN with the word for
errors and the kind of the failure. -/
def RowResult.Presents (s : Settings) (x : RowResult) : Outcome → Prop
  | .ok value => x.value = value ∧ s.display.text value = .ok x.display ∧ x.error = ""
  | .error error => x.value = Binary64.undefined ∧ x.display = "Error" ∧ x.error = error.kind.name

/-- Presenting an outcome says of a result what `RowResult.ofOutcome` computes. -/
theorem RowResult.presents_iff {x : RowResult} {outcome : Outcome} :
    x.Presents s outcome ↔ RowResult.ofOutcome s outcome = .ok x := by
  obtain ⟨value, display, error⟩ := x
  cases outcome with
  | error e =>
    simp only [Presents, ofOutcome, Display.outcomeText, Display.errorText, Except.ok.injEq, mk.injEq]
    tauto
  | ok v =>
    cases htext : s.display.text v with
    | error fault => simp [Presents, ofOutcome, Display.outcomeText, htext]
    | ok text =>
      simp only [Presents, ofOutcome, Display.outcomeText, htext, Except.ok.injEq, mk.injEq]
      tauto

/-- A row has its result: the outcome of what it asks for. -/
def Answered (s : Settings) (r : Request) (own : AngleMode) (table : Table) (row : List Cell)
    (x : RowResult) : Prop :=
  ∃ text mode, r.asked? s own table row = some (text, mode) ∧
    x.Presents s (Expression.evaluate s.arithmetic mode text)

/-- The result of a row is a matter of the row. -/
theorem rightUnique_answered : Relator.RightUnique (Answered s r own table) := by
  rintro row x y ⟨text, mode, hasked, hx⟩ ⟨text', mode', hasked', hy⟩
  rw [hasked] at hasked'
  obtain ⟨rfl, rfl⟩ := Prod.mk.inj (Option.some.inj hasked')
  rw [RowResult.presents_iff] at hx hy
  exact Except.ok.inj (hx.symm.trans hy)

/-- With sound settings every outcome has a result. -/
theorem RowResult.exists_ofOutcome_eq (hsound : s.flaw? = none) (outcome : Outcome) :
    ∃ x, RowResult.ofOutcome s outcome = .ok x := by
  cases outcome with
  | error error => exact ⟨_, rfl⟩
  | ok value =>
    obtain ⟨text, htext⟩ := Display.exists_text (Settings.digits_of_sound hsound).1.le value
    exact ⟨⟨value, text, ""⟩, by simp only [ofOutcome, Display.outcomeText, htext]⟩

/-- A cell that is found by the name of its column is found by a place. -/
theorem exists_place_of_cellOf_eq {column text : String} (h : table.cellOf column row = .text text) :
    ∃ place, table.place? column = some place ∧ Table.cellAt row place = .text text := by
  unfold Table.cellOf at h
  cases hplace : table.place? column with
  | none => simp [hplace] at h
  | some place =>
    rw [hplace] at h
    exact ⟨place, rfl, h⟩

/-- A coherent evaluator gives a row its result, and stays coherent. -/
theorem exists_evaluateRow_eq (h : e.Coherent) (hsound : s.flaw? = none)
    {asked : String × AngleMode} (hasked : r.asked? s e.mode table row = some asked) :
    ∃ x next, evaluateRow s r (table.place? (r.expressions s)) (table.place? (r.modes s)) e row =
        (.ok x, next) ∧
      Answered s r e.mode table row x ∧ next.Coherent ∧ next.mode = e.mode := by
  obtain ⟨text, mode⟩ := asked
  obtain ⟨hcell, hmode⟩ := Request.asked?_eq_some_iff.1 hasked
  obtain ⟨place, hplace, htext⟩ := exists_place_of_cellOf_eq hcell
  obtain ⟨next, hrun⟩ : ∃ next, e.evaluate s.arithmetic (rowMode r (table.cellOf (r.modes s) row))
      (some text) = (.ok (Expression.evaluate s.arithmetic mode text), next) :=
    ⟨_, Prod.ext (h.evaluate_fst s.arithmetic (modeFor_rowMode hmode) (some text)) rfl⟩
  obtain ⟨x, hx⟩ := RowResult.exists_ofOutcome_eq hsound (Expression.evaluate s.arithmetic mode text)
  refine ⟨x, next, ?_, ⟨text, mode, hasked, RowResult.presents_iff.2 hx⟩, ?_, ?_⟩
  · unfold Table.cellOf at hrun
    simp only [evaluateRow, hplace, htext, Cell.text?, hrun, hx]
  · have hnext := h.evaluate_snd s.arithmetic (rowMode r (table.cellOf (r.modes s) row)) (some text)
    rwa [hrun] at hnext
  · have hnext := Evaluator.mode_serve s.arithmetic e
      (.evaluate (rowMode r (table.cellOf (r.modes s) row)) (some text))
    rwa [Evaluator.serve, hrun] at hnext

/-- A coherent evaluator gives every row its result. -/
theorem exists_evaluateRows_eq (h : e.Coherent) (hsound : s.flaw? = none)
    (hasked : ∀ row ∈ rows, ∃ asked, r.asked? s e.mode table row = some asked) :
    ∃ results next,
      evaluateRows s r (table.place? (r.expressions s)) (table.place? (r.modes s)) e rows =
        (.ok results, next) ∧
      List.Forall₂ (Answered s r e.mode table) rows results ∧ next.Coherent ∧ next.mode = e.mode := by
  induction rows generalizing e with
  | nil => exact ⟨[], e, rfl, .nil, h, rfl⟩
  | cons row rows ih =>
    obtain ⟨asked, hrow⟩ := hasked row List.mem_cons_self
    obtain ⟨x, next, heval, hx, hnext, hmode⟩ := exists_evaluateRow_eq h hsound hrow
    rw [← hmode] at hasked
    obtain ⟨results, last, hevals, hresults, hlast, hmode'⟩ :=
      ih hnext fun row hrow => hasked row (List.mem_cons_of_mem _ hrow)
    rw [hmode] at hresults hmode'
    refine ⟨x :: results, last, ?_, .cons hx hresults, hlast, hmode'⟩
    simp only [evaluateRows, heval, hevals]

/-! ## The columns of a batch -/

/-- The columns that a batch sets. -/
def resultColumns : List String := ["value", "display", "error"]

/-- A row with its result. -/
def RowResult.addedTo (columns : List String) (row : List Cell) (x : RowResult) : List Cell :=
  let valued := Table.namesWith columns "value"
  let shown := Table.rowWith valued "display"
    (Table.rowWith columns "value" row (.number x.value)) (.text x.display)
  Table.rowWith (Table.namesWith valued "display") "error" shown (.text x.error)

/-- The rows of a report are those of the table, each with its result. -/
theorem rows_addResults (table : Table) (results : List RowResult) :
    (addResults table results).rows =
      table.rows.zipWith (RowResult.addedTo table.columns) results := by
  simp only [addResults, Table.setColumn_eq]
  generalize table.rows = rows
  induction rows generalizing results with
  | nil => rfl
  | cons row rows ih =>
    cases results with
    | nil => rfl
    | cons x results => exact congrArg _ (ih results)

/-- A report has the columns of the table and, behind them, those of the three that are missing there. -/
theorem columns_addResults (table : Table) (results : List RowResult) :
    (addResults table results).columns =
      table.columns ++ resultColumns.filter (· ∉ table.columns) := by
  simp only [addResults, Table.setColumn_eq, Table.namesWith, resultColumns]
  by_cases hvalue : "value" ∈ table.columns <;> by_cases hdisplay : "display" ∈ table.columns <;>
    by_cases herror : "error" ∈ table.columns <;> simp [hvalue, hdisplay, herror]

/-- A report is made row by row: each row has its result, the results stand in three columns, and whatever
else the table has stays where it is. -/
structure Report.RowWise (s : Settings) (r : Request) (own : AngleMode) (table : Table)
    (report : Report) : Prop where
  answered : List.Forall₂ (Answered s r own table) table.rows report.results
  values : report.table.column? "value" = some (report.results.map fun x => .number x.value)
  displays : report.table.column? "display" = some (report.results.map fun x => .text x.display)
  errors : report.table.column? "error" = some (report.results.map fun x => .text x.error)
  columns : report.table.columns = table.columns ++ resultColumns.filter (· ∉ table.columns)
  kept : ∀ place name, table.columns[place]? = some name → name ∉ resultColumns →
    report.table.rows.map (Table.cellAt · place) = table.rows.map (Table.cellAt · place)

/-- Results as many as rows fill the three columns, and the other columns stay. -/
theorem filled_addResults {results : List RowResult} (htable : table.Rectangular)
    (hresults : results.length = table.rows.length) :
    (addResults table results).column? "value" = some (results.map fun x => .number x.value) ∧
      (addResults table results).column? "display" = some (results.map fun x => .text x.display) ∧
      (addResults table results).column? "error" = some (results.map fun x => .text x.error) ∧
      ∀ place name, table.columns[place]? = some name → name ∉ resultColumns →
        (addResults table results).rows.map (Table.cellAt · place) =
          table.rows.map (Table.cellAt · place) := by
  -- the tables on the way to the last one, each with the cells that are still to be set
  obtain ⟨valued, hvalued⟩ : ∃ t, t = table.setColumn "value" (results.map fun x => .number x.value) :=
    ⟨_, rfl⟩
  obtain ⟨shown, hshown⟩ : ∃ t, t = valued.setColumn "display" (results.map fun x => .text x.display) :=
    ⟨_, rfl⟩
  have hlength : ∀ f : RowResult → Cell, (results.map f).length = table.rows.length := by
    intro f
    rw [List.length_map, hresults]
  have hlength₁ : ∀ f : RowResult → Cell, (results.map f).length = valued.rows.length := by
    intro f
    rw [hvalued, Table.length_rows_setColumn (hlength _), hlength]
  have hlength₂ : ∀ f : RowResult → Cell, (results.map f).length = shown.rows.length := by
    intro f
    rw [hshown, Table.length_rows_setColumn (hlength₁ _), hlength₁]
  have hrect₁ : valued.Rectangular := hvalued ▸ htable.setColumn _ _
  have hrect₂ : shown.Rectangular := hshown ▸ hrect₁.setColumn _ _
  have hreport : addResults table results =
      shown.setColumn "error" (results.map fun x => .text x.error) := by
    rw [hshown, hvalued, addResults]
  refine ⟨?_, ?_, ?_, ?_⟩
  · rw [hreport, Table.column?_setColumn_of_ne hrect₂ (hlength₂ _) (by decide), hshown,
      Table.column?_setColumn_of_ne hrect₁ (hlength₁ _) (by decide), hvalued]
    exact Table.column?_setColumn_self htable (hlength _) "value"
  · rw [hreport, Table.column?_setColumn_of_ne hrect₂ (hlength₂ _) (by decide), hshown]
    exact Table.column?_setColumn_self hrect₁ (hlength₁ _) "display"
  · rw [hreport]
    exact Table.column?_setColumn_self hrect₂ (hlength₂ _) "error"
  · intro place name hplace hname
    simp only [resultColumns, List.mem_cons, List.not_mem_nil, or_false, not_or] at hname
    obtain ⟨hvalue, hdisplay, herror⟩ := hname
    have hplace₁ : valued.columns[place]? = some name := by
      rw [hvalued, Table.setColumn_eq]
      exact Table.getElem?_namesWith hplace "value"
    have hplace₂ : shown.columns[place]? = some name := by
      rw [hshown, Table.setColumn_eq]
      exact Table.getElem?_namesWith hplace₁ "display"
    calc (addResults table results).rows.map (Table.cellAt · place)
        = shown.rows.map (Table.cellAt · place) := by
          rw [hreport, Table.map_cellAt_setColumn_of_ne hrect₂ (hlength₂ _) hplace₂ herror]
      _ = valued.rows.map (Table.cellAt · place) := by
          rw [hshown, Table.map_cellAt_setColumn_of_ne hrect₁ (hlength₁ _) hplace₁ hdisplay]
      _ = table.rows.map (Table.cellAt · place) := by
          rw [hvalued, Table.map_cellAt_setColumn_of_ne htable (hlength _) hplace hvalue]

/-- Results that answer the rows, added to the table, make up a report row by row. -/
theorem rowWise_of_answered {results : List RowResult} (htable : table.Rectangular)
    (h : List.Forall₂ (Answered s r own table) table.rows results) :
    Report.RowWise s r own table ⟨addResults table results, results⟩ := by
  obtain ⟨hvalues, hdisplays, herrors, hkept⟩ := filled_addResults htable h.length_eq.symm
  exact ⟨h, hvalues, hdisplays, herrors, columns_addResults table results, hkept⟩

/-! ## Whole batches -/

/-- A file is accepted if it is a table with a column of expressions. -/
theorem load_eq_ok_iff {content : String} :
    load s r content = .ok table ↔
      Table.read content = .ok table ∧ r.expressions s ∈ table.columns := by
  unfold load
  cases Table.read content with
  | error error => simp
  | ok read =>
    simp only [List.contains_iff_mem, Except.ok.injEq]
    constructor
    · intro h
      split at h
      next hcolumn =>
        obtain rfl := Except.ok.inj h
        exact ⟨rfl, hcolumn⟩
      · cases h
    · rintro ⟨rfl, hcolumn⟩
      exact if_pos hcolumn

/-- A batch with the given evaluator, or with a new one where none is given. -/
def evaluateAt (s : Settings) (r : Request) (evaluator : Option Evaluator) (table : Table) :
    Except Stop Report :=
  match evaluator with
  | some e => (evaluateWith s r e table).1
  | none => evaluate s r table

/-- The mode that is left for rows without a mode if the request has none either: that of the evaluator, or
of a new one. -/
def ownMode? (s : Settings) (r : Request) : Option Evaluator → Option AngleMode
  | some e => some e.mode
  | none => (r.mode.getD s.defaultMode).mode?

/-- The reports on pieces of a table, one after the other with the same evaluator. -/
def evaluatePieces (s : Settings) (r : Request) (columns : List String) (e : Evaluator) :
    List (List (List Cell)) → Except Stop (List Report) × Evaluator
  | [] => (.ok [], e)
  | rows :: pieces =>
    match evaluateWith s r e ⟨columns, rows⟩ with
    | (.error stop, e) => (.error stop, e)
    | (.ok report, e) =>
      match evaluatePieces s r columns e pieces with
      | (.error stop, e) => (.error stop, e)
      | (.ok reports, e) => (.ok (report :: reports), e)

/-- A coherent evaluator serves a batch whose rows all ask for something. -/
theorem exists_evaluateWith_eq (h : e.Coherent) (hsound : s.flaw? = none) (table : Table)
    (hasked : ∀ row ∈ table.rows, ∃ asked, r.asked? s e.mode table row = some asked) :
    ∃ results next, evaluateWith s r e table = (.ok ⟨addResults table results, results⟩, next) ∧
      List.Forall₂ (Answered s r e.mode table) table.rows results ∧ next.Coherent ∧
      next.mode = e.mode := by
  obtain ⟨results, next, hrun, hresults, hnext, hmode⟩ := exists_evaluateRows_eq h hsound hasked
  exact ⟨results, next, by simp only [evaluateWith, hrun], hresults, hnext, hmode⟩

/-- With or without an evaluator, a batch has a coherent one. -/
theorem exists_evaluateAt_eq {evaluator : Option Evaluator} (hsound : s.flaw? = none)
    (hevaluator : ∀ e ∈ evaluator, e.Coherent)
    (hmode : ∀ choice ∈ r.mode, ∃ mode, AngleMode.Choice.mode? choice = some mode) :
    ∃ e, e.Coherent ∧ ownMode? s r evaluator = some e.mode ∧
      ∀ table, evaluateAt s r evaluator table = (evaluateWith s r e table).1 := by
  cases evaluator with
  | some e => exact ⟨e, hevaluator e rfl, rfl, fun _ => rfl⟩
  | none =>
    obtain ⟨hsize, hdefault⟩ := Settings.evaluator_of_sound hsound
    have hown : ∃ mode, (r.mode.getD s.defaultMode).mode? = some mode := by
      cases hchoice : r.mode with
      | none => exact hdefault
      | some choice => exact hmode choice hchoice
    obtain ⟨mode, hown⟩ := hown
    have hcreate : Evaluator.create s none r.mode = .ok ⟨mode, .empty s.cacheSize⟩ :=
      Evaluator.create_of_mode?_eq hown
    refine ⟨_, Evaluator.coherent_of_create hcreate hsize, hown, ?_⟩
    intro table
    simp only [evaluateAt, evaluate, hcreate]

/-- Where each row determines its result, results follow their rows to other places. -/
theorem getElem?_of_permuted {α β : Type} {R : α → β → Prop} (hR : Relator.RightUnique R) {xs : List α}
    {ys ys' : List β} (h : List.Forall₂ R xs ys) {σ : Equiv.Perm (Fin xs.length)}
    (h' : List.Forall₂ R (List.ofFn fun i => xs[σ i]) ys') (i : Fin xs.length) :
    ys'[(i : Nat)]? = ys[(σ i : Nat)]? := by
  have hi : (i : Nat) < ys'.length := by
    rw [← h'.length_eq, List.length_ofFn]
    exact i.isLt
  have hσ : (σ i : Nat) < ys.length := by
    rw [← h.length_eq]
    exact (σ i).isLt
  have hmoved := h'.get (by rw [List.length_ofFn]; exact i.isLt) hi
  have hfound := h.get (σ i).isLt hσ
  rw [List.get_eq_getElem, List.getElem_ofFn] at hmoved
  rw [List.getElem?_eq_getElem hi, List.getElem?_eq_getElem hσ]
  exact congrArg some (hR hmoved hfound)

/-- A row leaves the evaluator alone or has it evaluate something, whether the row stops the batch or not. -/
theorem evaluateRow_snd (s : Settings) (r : Request) (expressionPlace modePlace : Option Nat)
    (e : Evaluator) (row : List Cell) :
    (evaluateRow s r expressionPlace modePlace e row).2 = e ∨
      ∃ choice text, (evaluateRow s r expressionPlace modePlace e row).2 =
        (e.evaluate s.arithmetic choice text).2 := by
  unfold evaluateRow
  cases expressionPlace with
  | none => exact .inl rfl
  | some place =>
    refine .inr ⟨rowMode r ((modePlace.map (Table.cellAt row)).getD .missing),
      (Table.cellAt row place).text?, ?_⟩
    simp only
    split
    next hrun => rw [hrun]
    next hrun =>
      rw [hrun]
      split
      · rfl
      · rfl

/-- What evaluating preserves, the rows of a batch preserve, up to the one that stops it. -/
theorem evaluateRows_of_closed {p : Evaluator → Prop}
    (hp : ∀ e choice text, p e → p (e.evaluate s.arithmetic choice text).2) (h : p e) (r : Request)
    (expressionPlace modePlace : Option Nat) (rows : List (List Cell)) :
    p (evaluateRows s r expressionPlace modePlace e rows).2 := by
  induction rows generalizing e with
  | nil => exact h
  | cons row rows ih =>
    have hrow : p (evaluateRow s r expressionPlace modePlace e row).2 := by
      obtain heq | ⟨choice, text, heq⟩ := evaluateRow_snd s r expressionPlace modePlace e row
      · rwa [heq]
      · rw [heq]
        exact hp e choice text h
    unfold evaluateRows
    split
    next hrun => rwa [hrun] at hrow
    next result next hrun =>
      rw [hrun] at hrow
      have hrows := ih hrow
      split
      next hrest => rwa [hrest] at hrows
      next hrest => rwa [hrest] at hrows

/-- A batch does nothing to its evaluator but ask it, so it keeps whatever asking keeps. -/
theorem evaluateWith_of_closed {p : Evaluator → Prop}
    (hp : ∀ e choice text, p e → p (e.evaluate s.arithmetic choice text).2) (h : p e) (r : Request)
    (table : Table) : p (evaluateWith s r e table).2 := by
  have hrows := evaluateRows_of_closed hp h r (table.place? (r.expressions s)) (table.place? (r.modes s))
    table.rows
  unfold evaluateWith
  split
  next hrun => rwa [hrun] at hrows
  next hrun => rwa [hrun] at hrows

/-- An evaluator in use stays in use through a batch. -/
theorem reached_evaluateWith (h : e.Reached s) (r : Request) (table : Table) :
    (evaluateWith s r e table).2.Reached s :=
  evaluateWith_of_closed (fun _ choice text h => h.serve (.evaluate choice text)) h r table

/-- With its rows in another order, a batch has the same results in that order. -/
theorem exists_evaluateWith_permuted (h : e.Coherent) (hsound : s.flaw? = none)
    (hasked : ∀ row ∈ table.rows, ∃ asked, r.asked? s e.mode table row = some asked)
    {results : List RowResult} (hresults : List.Forall₂ (Answered s r e.mode table) table.rows results)
    (σ : Equiv.Perm (Fin table.rows.length)) :
    ∃ report, (evaluateWith s r e (table.permuted σ)).1 = .ok report ∧
      report.table.columns = (addResults table results).columns ∧
      ∀ i : Fin table.rows.length, report.results[(i : Nat)]? = results[(σ i : Nat)]? ∧
        report.table.rows[(i : Nat)]? = (addResults table results).rows[(σ i : Nat)]? := by
  have hmoved : ∀ row ∈ (table.permuted σ).rows, ∃ asked, r.asked? s e.mode table row = some asked := by
    intro row hrow
    obtain ⟨i, rfl⟩ := (List.mem_ofFn' _ _).1 hrow
    exact hasked _ (List.getElem_mem _)
  obtain ⟨results', next, hrun, hresults', -, -⟩ :=
    exists_evaluateWith_eq h hsound (table.permuted σ) hmoved
  refine ⟨⟨addResults (table.permuted σ) results', results'⟩, by rw [hrun], ?_, ?_⟩
  · rw [columns_addResults, columns_addResults]
    rfl
  · intro i
    have hresult := getElem?_of_permuted rightUnique_answered hresults hresults' i
    refine ⟨hresult, ?_⟩
    rw [rows_addResults, rows_addResults, List.getElem?_zipWith, List.getElem?_zipWith,
      Table.getElem?_rows_permuted, hresult]
    rfl

/-- Pieces of a table have the results that their rows have in the table. -/
theorem exists_evaluatePieces_eq {pieces : List (List (List Cell))} (h : e.Coherent)
    (hsound : s.flaw? = none)
    (hasked : ∀ row ∈ pieces.flatten, ∃ asked, r.asked? s e.mode table row = some asked) :
    ∃ reports, (evaluatePieces s r table.columns e pieces).1 = .ok reports ∧
      List.Forall₂ (Answered s r e.mode table) pieces.flatten (reports.flatMap Report.results) ∧
      reports.flatMap (·.table.rows) =
        pieces.flatten.zipWith (RowResult.addedTo table.columns) (reports.flatMap Report.results) := by
  induction pieces generalizing e with
  | nil => exact ⟨[], rfl, .nil, rfl⟩
  | cons rows pieces ih =>
    rw [List.flatten_cons] at hasked
    obtain ⟨results, next, hrun, hresults, hnext, hmode⟩ :=
      exists_evaluateWith_eq h hsound ⟨table.columns, rows⟩
        fun row hrow => hasked row (List.mem_append_left _ hrow)
    rw [← hmode] at hasked
    obtain ⟨reports, hreports, hrest, hrows⟩ :=
      ih hnext fun row hrow => hasked row (List.mem_append_right _ hrow)
    rw [hmode] at hrest
    refine ⟨⟨addResults ⟨table.columns, rows⟩ results, results⟩ :: reports, ?_, ?_, ?_⟩
    · obtain ⟨last, hlast⟩ : ∃ last, evaluatePieces s r table.columns next pieces = (.ok reports, last) :=
        ⟨_, Prod.ext hreports rfl⟩
      simp only [evaluatePieces, hrun, hlast]
    · rw [List.flatten_cons, List.flatMap_cons]
      exact List.rel_append hresults hrest
    · rw [List.flatten_cons, List.flatMap_cons, List.flatMap_cons, List.zipWith_append hresults.length_eq,
        ← hrows, rows_addResults]

/-- A batch gives each row the outcome of its expression in the mode that the row asks for. So its results
follow the rows into every other order, and are those of its pieces, evaluated one after the other with the
same evaluator. -/
theorem evaluateAt_rowWise {evaluator : Option Evaluator} (hsound : s.flaw? = none)
    (hevaluator : ∀ e ∈ evaluator, e.Reached s ∧ 0 ≤ e.cache.capacity)
    (htable : table.Rectangular) (h : r.Legible s table) :
    ∃ own report, ownMode? s r evaluator = some own ∧
      evaluateAt s r evaluator table = .ok report ∧ report.RowWise s r own table ∧
      (∀ σ : Equiv.Perm (Fin table.rows.length), ∃ report',
        evaluateAt s r evaluator (table.permuted σ) = .ok report' ∧
          report'.table.columns = report.table.columns ∧
          ∀ i : Fin table.rows.length, report'.results[(i : Nat)]? = report.results[(σ i : Nat)]? ∧
            report'.table.rows[(i : Nat)]? = report.table.rows[(σ i : Nat)]?) ∧
      ∀ e ∈ evaluator, ∀ pieces : List (List (List Cell)), pieces.flatten = table.rows →
        ∃ reports, (evaluatePieces s r table.columns e pieces).1 = .ok reports ∧
          reports.flatMap Report.results = report.results ∧
          reports.flatMap (·.table.rows) = report.table.rows := by
  obtain ⟨e, hcoherent, hown, hevaluate⟩ := exists_evaluateAt_eq hsound
    (fun e he => (hevaluator e he).1.coherent (hevaluator e he).2) h.mode
  have hasked := h.exists_asked?_eq e.mode
  obtain ⟨results, next, hrun, hresults, -, -⟩ := exists_evaluateWith_eq hcoherent hsound table hasked
  refine ⟨e.mode, ⟨addResults table results, results⟩, hown, by rw [hevaluate, hrun],
    rowWise_of_answered htable hresults, ?_, ?_⟩
  · intro σ
    obtain ⟨report, hreport, hsame⟩ :=
      exists_evaluateWith_permuted hcoherent hsound hasked hresults σ
    exact ⟨report, by rw [hevaluate, hreport], hsame⟩
  · intro e' he' pieces hpieces
    have hmode : e'.mode = e.mode := by
      rw [Option.mem_def.1 he'] at hown
      exact Option.some.inj hown
    rw [← hpieces, ← hmode] at hasked
    obtain ⟨reports, hreports, hanswered, hrows⟩ := exists_evaluatePieces_eq
      ((hevaluator e' he').1.coherent (hevaluator e' he').2) hsound hasked
    rw [hpieces, hmode] at hanswered
    have hsame := List.right_unique_forall₂' rightUnique_answered hanswered hresults
    refine ⟨reports, hreports, hsame, ?_⟩
    rw [hrows, hsame, hpieces, rows_addResults]

/-- Rows of all kinds: with a mode of their own and without one, with a value and without one. -/
def mixed : Table where
  columns := ["error", "angle_mode", "note", "expression"]
  rows := [[.missing, .text "Degrees", .number 1, .text "tan(45)"],
    [.text "old", .text " ", .text "n", .text "1/"],
    [.missing, .missing, .missing, .text "\u00a02/3 "]]

/-- A request with a mode for the rows that have none. -/
def inRadians : Request := ⟨"", "", some (.name "rad")⟩

/-- Every row of the mixed table can be asked, with a text for its expression and a mode that there is. -/
theorem legible_mixed : inRadians.Legible .standard mixed where
  expressions := by
    intro row hrow
    simp only [mixed, List.mem_cons, List.not_mem_nil, or_false] at hrow
    rcases hrow with rfl | rfl | rfl
    · exact ⟨"tan(45)", by decide +kernel⟩
    · exact ⟨"1/", by decide +kernel⟩
    · exact ⟨"\u00a02/3 ", by decide +kernel⟩
  modes := by
    intro row hrow name hname hblank
    simp only [mixed, List.mem_cons, List.not_mem_nil, or_false] at hrow
    rcases hrow with rfl | rfl | rfl
    · obtain rfl : "Degrees" = name := Cell.text.inj (by rw [← hname]; decide +kernel)
      exact ⟨.degrees, by decide +kernel⟩
    · obtain rfl : " " = name := Cell.text.inj (by rw [← hname]; decide +kernel)
      exact absurd hblank (by decide)
    · have hcell : mixed.cellOf (inRadians.modes .standard)
          [.missing, .missing, .missing, .text "\u00a02/3 "] = .missing := by decide +kernel
      rw [hcell] at hname
      cases hname
  mode := by
    rintro choice ⟨⟩
    exact ⟨.radians, by decide +kernel⟩

/-- An evaluator with room for one program, after a batch. -/
def used : Evaluator :=
  (evaluateWith .standard inRadians ⟨.degrees, .empty 1⟩ mixed).2

/-- The mixed table, evaluated whole and in three pieces of which one is empty, by an evaluator that has
been used before. -/
theorem evaluateAt_rowWise_mixed :
    Settings.standard.flaw? = none ∧ mixed.Rectangular ∧ inRadians.Legible .standard mixed ∧
      ∃ report, evaluateAt .standard inRadians (some used) mixed = .ok report ∧
        report.RowWise .standard inRadians .degrees mixed ∧
        report.table.columns = ["error", "angle_mode", "note", "expression", "value", "display"] ∧
        ∃ reports, (evaluatePieces .standard inRadians mixed.columns used
            [mixed.rows.take 1, [], mixed.rows.drop 1]).1 = .ok reports ∧
          reports.flatMap Report.results = report.results := by
  have hsound : Settings.standard.flaw? = none := by decide +kernel
  have hcreate : Evaluator.create .standard (some 1) none = .ok ⟨.degrees, .empty 1⟩ :=
    Evaluator.create_of_mode?_eq (by decide +kernel)
  have hevaluator : ∀ e ∈ some used, e.Reached .standard ∧ 0 ≤ e.cache.capacity := by
    rintro e ⟨⟩
    exact ⟨reached_evaluateWith (.create hcreate) inRadians mixed, by decide +kernel⟩
  have htable : mixed.Rectangular := by
    intro row hrow
    simp only [mixed, List.mem_cons, List.not_mem_nil, or_false] at hrow
    rcases hrow with rfl | rfl | rfl
    · rfl
    · rfl
    · rfl
  obtain ⟨own, report, hown, hreport, hrows, -, hpieces⟩ :=
    evaluateAt_rowWise hsound hevaluator htable legible_mixed
  have hused : some used.mode = some own := hown
  obtain rfl : own = .degrees := by
    rw [← Option.some.inj hused]
    decide +kernel
  obtain ⟨reports, hreports, hresults, -⟩ :=
    hpieces used rfl [mixed.rows.take 1, [], mixed.rows.drop 1] rfl
  exact ⟨hsound, htable, legible_mixed, report, hreport, hrows, hrows.columns.trans (by decide), reports,
    hreports, hresults⟩

end Batch

end DeskCalculator
