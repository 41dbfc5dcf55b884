import DeskCalculator.Proofs.RepeatedEquals
import DeskCalculator.Proofs.WrittenReports

/-!
# Running a batch on its own output

The file that a batch writes is one that it reads, and running the same batch on it writes the same file
again. `rerun_eq` states this for every file that is read, evaluated and written, with one condition on the
texts that were written: a carriage return stands in no cell that is not quoted. A cell is quoted for
a comma, a double quote or a line feed, so a carriage return without any of these ends the line when the
file is read again (`rerun_bareReturn_ne`).

The second run evaluates the same rows (`evaluateRows_congr`). Its evaluator may be the one of the first run
after that run, or another one of the same mode and capacity; what was asked of them before does not show
(`Evaluator.Alike`). This holds for evaluators of negative capacity as well, which fail on every expression
that is not blank.
-/

namespace DeskCalculator

/-! ## Evaluators of one setup -/

namespace RecencyCache

variable {κ α : Type} [DecidableEq κ] {c : RecencyCache κ α}

/-- A cache that is too small for anything finds nothing and stays empty. -/
theorem fetch_of_negative (hcapacity : c.capacity < 0) (hempty : c.entries = []) (make : κ → α) (k : κ) :
    (c.fetch make k).1 = none ∧ (c.fetch make k).2.entries = [] := by
  have hfind : c.find? k = none := by rw [find?, hempty, List.lookup_nil]
  rw [fetch, hfind]
  simp only [if_pos hcapacity, and_self]

end RecencyCache

namespace Evaluator

variable {s : Settings} {e e' : Evaluator}

/-- What an evaluator was created with: its mode and the capacity of its cache. -/
def setup (e : Evaluator) : AngleMode × Int :=
  (e.mode, e.cache.capacity)

/-- The cache holds the programs of its keys, and nothing if it is too small for anything. -/
structure Steady (e : Evaluator) : Prop where
  trusted : e.Trusted
  empty : e.cache.capacity < 0 → e.cache.entries = []

/-- Compiling keeps an evaluator steady. -/
theorem Steady.compile (h : e.Steady) (text : Option String) : (e.compile text).2.Steady where
  trusted := h.trusted.compile text
  empty := by
    rw [compile_snd, RecencyCache.capacity_fetch]
    exact fun hcapacity => (RecencyCache.fetch_of_negative hcapacity (h.empty hcapacity) _ text).2

/-- Compiling leaves the setup alone. -/
theorem setup_compile (e : Evaluator) (text : Option String) : (e.compile text).2.setup = e.setup := by
  rw [setup, compile_snd, RecencyCache.capacity_fetch, setup]

/-- Evaluating keeps an evaluator steady. -/
theorem Steady.evaluate (h : e.Steady) (a : Arithmetic) (choice : Option AngleMode.Choice)
    (text : Option String) : (e.evaluate a choice text).2.Steady := by
  rcases evaluate_snd a e choice text with heq | heq <;> rw [heq]
  · exact h
  · exact h.compile text

/-- Evaluating leaves the setup alone. -/
theorem setup_evaluate (e : Evaluator) (a : Arithmetic) (choice : Option AngleMode.Choice)
    (text : Option String) : (e.evaluate a choice text).2.setup = e.setup := by
  rcases evaluate_snd a e choice text with heq | heq <;> rw [heq]
  exact setup_compile e text

/-- Every evaluator in use is steady. -/
theorem Reached.steady (h : e.Reached s) : e.Steady := by
  refine ⟨h.trusted, ?_⟩
  induction h with
  | @create size choice e hcreate =>
    unfold Evaluator.create at hcreate
    split at hcreate
    · obtain rfl := Except.ok.inj hcreate
      exact fun _ => rfl
    · cases hcreate
  | @serve e request hreached ih =>
    have hsteady : e.Steady := ⟨hreached.trusted, ih⟩
    cases request with
    | evaluate choice text => exact (hsteady.evaluate s.arithmetic choice text).empty
    | compile text => exact (hsteady.compile text).empty
    | clear => exact fun _ => rfl
  | @act e session action hreached ih =>
    have hsteady : e.Steady := ⟨hreached.trusted, ih⟩
    rcases Session.act_snd_snd s session e action with heq | heq <;> rw [heq]
    · exact ih
    · rcases evaluateIn_snd s.arithmetic e session.mode (some session.line) with heq | heq <;> rw [heq]
      · exact ih
      · exact (hsteady.compile (some session.line)).empty

/-- The program of an expression, or a fault where the cache is too small. -/
theorem Steady.compile_fst (h : e.Steady) (text : Option String) :
    (e.compile text).1 =
      if e.cache.capacity < 0 then .error .emptyCache else .ok (Program.compile (text.getD "")) := by
  split
  next hcapacity =>
    obtain ⟨hnone, -⟩ := RecencyCache.fetch_of_negative hcapacity (h.empty hcapacity)
      (fun text => Program.compile (text.getD "")) text
    unfold Evaluator.compile
    split
    next hfetch =>
      rw [hfetch] at hnone
      cases hnone
    next => rfl
  next hcapacity => exact Coherent.compile_fst ⟨by omega, h.trusted⟩ text

/-- Two evaluators that were created alike, whatever they were used for since. -/
structure Alike (e e' : Evaluator) : Prop where
  steady : e.Steady
  steady' : e'.Steady
  setup_eq : e.setup = e'.setup

/-- Evaluators that were created alike give one answer in a mode. -/
theorem Alike.evaluateIn_fst (h : e.Alike e') (a : Arithmetic) (mode : AngleMode) (text : Option String) :
    (e.evaluateIn a mode text).1 = (e'.evaluateIn a mode text).1 := by
  have hcapacity : e.cache.capacity = e'.cache.capacity := (Prod.mk.inj h.setup_eq).2
  have hcompile : (e.compile text).1 = (e'.compile text).1 := by
    rw [h.steady.compile_fst, h.steady'.compile_fst, hcapacity]
  unfold evaluateIn
  split
  · rfl
  · generalize e.compile text = compiled at hcompile
    generalize e'.compile text = compiled' at hcompile
    obtain ⟨result, next⟩ := compiled
    obtain ⟨result', next'⟩ := compiled'
    obtain rfl : result = result' := hcompile
    cases result <;> rfl

/-- Evaluators that were created alike give one answer, and remain so. -/
theorem Alike.evaluate (h : e.Alike e') (a : Arithmetic) (choice : Option AngleMode.Choice)
    (text : Option String) :
    (e.evaluate a choice text).1 = (e'.evaluate a choice text).1 ∧
      (e.evaluate a choice text).2.Alike (e'.evaluate a choice text).2 := by
  refine ⟨?_, h.steady.evaluate a choice text, h.steady'.evaluate a choice text, ?_⟩
  · have hmode : e.modeFor choice = e'.modeFor choice := by
      unfold modeFor
      rw [(Prod.mk.inj h.setup_eq).1]
    unfold Evaluator.evaluate
    rw [hmode]
    cases e'.modeFor choice with
    | ok mode => exact h.evaluateIn_fst a mode text
    | error fault => rfl
  · rw [setup_evaluate, setup_evaluate]
    exact h.setup_eq

end Evaluator

namespace Batch

variable {s : Settings} {r : Request} {table : Table} {e e' : Evaluator} {evaluator again : Option Evaluator}
  {expressionPlace modePlace : Option Nat} {row row' : List Cell} {rows rows' : List (List Cell)}
  {report : Report} {content : String}

/-! ## The same rows at evaluators of one setup -/

/-- Two rows ask for the same. -/
def AsksAlike (expressionPlace modePlace : Option Nat) (row row' : List Cell) : Prop :=
  expressionPlace.map (Table.cellAt row) = expressionPlace.map (Table.cellAt row') ∧
    modePlace.map (Table.cellAt row) = modePlace.map (Table.cellAt row')

/-- Rows that ask for the same have one result at evaluators that were created alike, which remain so. -/
theorem evaluateRow_congr (h : e.Alike e') (hrow : AsksAlike expressionPlace modePlace row row') :
    (evaluateRow s r expressionPlace modePlace e row).1 =
        (evaluateRow s r expressionPlace modePlace e' row').1 ∧
      (evaluateRow s r expressionPlace modePlace e row).2.Alike
        (evaluateRow s r expressionPlace modePlace e' row').2 := by
  obtain ⟨hexpression, hmode⟩ := hrow
  unfold evaluateRow
  rw [hmode]
  cases expressionPlace with
  | none => exact ⟨rfl, h⟩
  | some place =>
    have hcell : Table.cellAt row place = Table.cellAt row' place := Option.some.inj hexpression
    obtain ⟨hanswer, hnext⟩ := h.evaluate s.arithmetic
      (rowMode r ((modePlace.map (Table.cellAt row')).getD .missing)) (Table.cellAt row' place).text?
    simp only [hcell]
    generalize e.evaluate .. = served at hanswer hnext
    generalize e'.evaluate .. = served' at hanswer hnext
    obtain ⟨answer, next⟩ := served
    obtain ⟨answer', next'⟩ := served'
    obtain rfl : answer = answer' := hanswer
    cases answer with
    | error fault => exact ⟨rfl, hnext⟩
    | ok outcome =>
      simp only
      split
      · exact ⟨rfl, hnext⟩
      · exact ⟨rfl, hnext⟩

/-- Rows that ask for the same have the same results at evaluators that were created alike. -/
theorem evaluateRows_congr (h : e.Alike e')
    (hrows : List.Forall₂ (AsksAlike expressionPlace modePlace) rows rows') :
    (evaluateRows s r expressionPlace modePlace e rows).1 =
      (evaluateRows s r expressionPlace modePlace e' rows').1 := by
  induction hrows generalizing e e' with
  | nil => rfl
  | @cons row row' rows rows' hrow _ ih =>
    obtain ⟨hresult, hnext⟩ := evaluateRow_congr (s := s) (r := r) h hrow
    unfold evaluateRows
    generalize evaluateRow s r expressionPlace modePlace e row = served at hresult hnext
    generalize evaluateRow s r expressionPlace modePlace e' row' = served' at hresult hnext
    obtain ⟨result, next⟩ := served
    obtain ⟨result', next'⟩ := served'
    obtain rfl : result = result' := hresult
    cases result with
    | error stop => rfl
    | ok result =>
      have hrest := ih hnext
      simp only
      generalize evaluateRows s r expressionPlace modePlace next rows = rest at hrest
      generalize evaluateRows s r expressionPlace modePlace next' rows' = rest' at hrest
      obtain ⟨results, last⟩ := rest
      obtain ⟨results', last'⟩ := rest'
      obtain rfl : results = results' := hrest
      cases results <;> rfl

/-- The report of a batch is the table with the results of its rows. -/
theorem evaluateWith_fst (s : Settings) (r : Request) (e : Evaluator) (table : Table) :
    (evaluateWith s r e table).1 =
      (evaluateRows s r (table.place? (r.expressions s)) (table.place? (r.modes s)) e table.rows).1.map
        fun results => ⟨addResults table results, results⟩ := by
  unfold evaluateWith
  split
  next hrun => rw [hrun, Except.map]
  next hrun => rw [hrun, Except.map]

/-- A batch leaves the setup of its evaluator alone. -/
theorem setup_evaluateWith (s : Settings) (r : Request) (e : Evaluator) (table : Table) :
    (evaluateWith s r e table).2.setup = e.setup :=
  evaluateWith_of_closed (p := fun after => after.setup = e.setup)
    (fun after choice text h => (after.setup_evaluate s.arithmetic choice text).trans h) rfl r table

/-- The evaluator of a batch: the given one, or else a new one. -/
def evaluatorFor (s : Settings) (r : Request) : Option Evaluator → Except Fault Evaluator
  | some e => .ok e
  | none => Evaluator.create s none r.mode

/-- A batch runs on the evaluator it is given or on a new one. -/
theorem evaluateAt_eq (s : Settings) (r : Request) (evaluator : Option Evaluator) (table : Table) :
    evaluateAt s r evaluator table =
      match evaluatorFor s r evaluator with
      | .error fault => .error (.fault fault)
      | .ok e => (evaluateWith s r e table).1 := by
  cases evaluator <;> rfl

/-- Evaluators for a batch, given with one setup, are alike. -/
theorem exists_evaluatorFor_eq (hevaluator : ∀ e ∈ evaluator, e.Reached s)
    (hagain : ∀ e ∈ again, e.Reached s)
    (hsetup : again.map Evaluator.setup = evaluator.map Evaluator.setup)
    (h : evaluatorFor s r evaluator = .ok e) :
    ∃ e', evaluatorFor s r again = .ok e' ∧ e.Alike e' := by
  cases evaluator with
  | none =>
    obtain rfl : again = none := Option.map_eq_none_iff.1 hsetup
    have hsteady : e.Steady := (Evaluator.Reached.create h).steady
    exact ⟨e, h, hsteady, hsteady, rfl⟩
  | some given =>
    obtain rfl := Except.ok.inj h
    obtain ⟨e', rfl, heq⟩ := Option.map_eq_some_iff.1 hsetup
    exact ⟨e', rfl, (hevaluator given rfl).steady, (hagain e' rfl).steady, heq.symm⟩

/-- What a batch reports: one result a row, each presenting an outcome, in the columns of the table. -/
theorem report_of_evaluateAt (h : evaluateAt s r evaluator table = .ok report) :
    report.table = addResults table report.results ∧ report.results.length = table.rows.length ∧
      ∀ x ∈ report.results, ∃ outcome, RowResult.ofOutcome s outcome = .ok x := by
  rw [evaluateAt_eq] at h
  split at h
  · cases h
  next e _ =>
    rw [evaluateWith_fst] at h
    cases hrun : (evaluateRows s r (table.place? (r.expressions s)) (table.place? (r.modes s)) e
        table.rows).1 with
    | error stop =>
      rw [hrun] at h
      cases h
    | ok results =>
      rw [hrun] at h
      obtain rfl := Except.ok.inj h
      exact ⟨rfl, length_of_evaluateRows hrun⟩

/-- A batch on rows that ask for the same has the same results. -/
theorem evaluateAt_congr {table' : Table} (hevaluator : ∀ e ∈ evaluator, e.Reached s)
    (hagain : ∀ e ∈ again, e.Reached s)
    (hsetup : again.map Evaluator.setup = evaluator.map Evaluator.setup)
    (hexpressions : table'.place? (r.expressions s) = table.place? (r.expressions s))
    (hmodes : table'.place? (r.modes s) = table.place? (r.modes s))
    (hrows : List.Forall₂ (AsksAlike (table.place? (r.expressions s)) (table.place? (r.modes s)))
      table.rows table'.rows)
    (h : evaluateAt s r evaluator table = .ok report) :
    evaluateAt s r again table' = .ok ⟨addResults table' report.results, report.results⟩ := by
  rw [evaluateAt_eq] at h
  split at h
  · cases h
  next e he =>
    obtain ⟨e', he', halike⟩ := exists_evaluatorFor_eq hevaluator hagain hsetup he
    have hsame := evaluateRows_congr (s := s) (r := r) halike hrows
    rw [evaluateWith_fst, hsame] at h
    rw [evaluateAt_eq, he']
    simp only
    rw [evaluateWith_fst, hexpressions, hmodes]
    generalize (evaluateRows s r (table.place? (r.expressions s)) (table.place? (r.modes s)) e'
      table'.rows).1 = run at h
    cases run with
    | error stop => cases h
    | ok results =>
      obtain rfl := Except.ok.inj h
      rfl

/-! ## The second run -/

/-- Tables with the same column have the same cells in it, row by row. -/
theorem map_cellAt_getElem {table' : Table} {name : String} (hplace : table'.place? name = table.place? name)
    (hcolumn : table'.column? name = table.column? name) {i : Nat} (h : i < table.rows.length)
    (h' : i < table'.rows.length) :
    (table.place? name).map (Table.cellAt table.rows[i]) =
      (table.place? name).map (Table.cellAt table'.rows[i]) := by
  rw [Table.column?, Table.column?, hplace] at hcolumn
  cases hfound : table.place? name with
  | none => rfl
  | some place =>
    rw [hfound] at hcolumn
    have hcells := congrArg (·[i]?) (Option.some.inj hcolumn)
    simp only [List.getElem?_map, List.getElem?_eq_getElem h, List.getElem?_eq_getElem h'] at hcells
    exact congrArg some (Option.some.inj hcells).symm

/-- Running a batch on its own output changes nothing. If a file is read, evaluated and written, then what was
written is read with all its expressions, and the same batch gives the same results and writes the same file.
Carriage returns in it have to be quoted. -/
theorem rerun_eq (hevaluator : ∀ e ∈ evaluator, e.Reached s) (hagain : ∀ e ∈ again, e.Reached s)
    (hsetup : again.map Evaluator.setup = evaluator.map Evaluator.setup)
    (hexpressions : r.expressions s ∉ resultColumns) (hmodes : r.modes s ∉ resultColumns)
    (hload : load s r content = .ok table)
    (hreport : evaluateAt s r evaluator table = .ok report)
    (hmark : ∀ name ∈ table.columns, name.toList.head? ≠ some '\uFEFF')
    (hreturns : ∀ text ∈ report.table.writtenTexts, '\r' ∈ text → text.any Table.needsQuotes = true) :
    ∃ table' report', load s r report.table.write = .ok table' ∧
      table'.column? (r.expressions s) = report.table.column? (r.expressions s) ∧
      evaluateAt s r again table' = .ok report' ∧ report'.results = report.results ∧
      report'.table.write = report.table.write := by
  obtain ⟨hread, hcolumn⟩ := load_eq_ok_iff.1 hload
  have htable := Table.readable_of_read hread
  obtain ⟨hfilled, hlength, houtcomes⟩ := report_of_evaluateAt hreport
  obtain ⟨t, ht⟩ : ∃ t, t = (addResults table report.results).asTexts := ⟨_, rfl⟩
  have hplaces : ∀ name ∉ resultColumns, t.place? name = table.place? name := fun name hname =>
    ht ▸ place?_addResults_of_notMem hname
  have hcolumns : ∀ name ∉ resultColumns, t.column? name = table.column? name := fun name hname =>
    ht ▸ column?_asTexts_addResults htable hlength hname
  have hwritten : Table.read report.table.write = .ok t := by
    rw [hfilled] at hreturns ⊢
    rw [ht]
    exact Table.read_write (writable_addResults htable houtcomes hmark hreturns)
  have hrows : List.Forall₂ (AsksAlike (table.place? (r.expressions s)) (table.place? (r.modes s)))
      table.rows t.rows := by
    rw [List.forall₂_iff_get]
    refine ⟨?_, fun i h h' => ?_⟩
    · rw [ht, Table.asTexts, List.length_map, rows_addResults, List.length_zipWith, hlength, Nat.min_self]
    · exact ⟨map_cellAt_getElem (hplaces _ hexpressions) (hcolumns _ hexpressions) h h',
        map_cellAt_getElem (hplaces _ hmodes) (hcolumns _ hmodes) h h'⟩
  refine ⟨t, ⟨addResults t report.results, report.results⟩, load_eq_ok_iff.2 ⟨hwritten, ?_⟩, ?_,
    evaluateAt_congr hevaluator hagain hsetup (hplaces _ hexpressions) (hplaces _ hmodes) hrows hreport,
    rfl, ?_⟩
  · rw [ht, Table.asTexts, columns_addResults]
    exact List.mem_append_left _ hcolumn
  · rw [hcolumns _ hexpressions, hfilled,
      column?_addResults_of_notMem htable.rectangular hlength hexpressions]
  · apply Table.write_eq_of_lines_eq
    rw [ht, hfilled]
    exact lines_addResults htable.rectangular hlength

/-- A table with names and cells that are quoted or settled when it is read: commas, double quotes, ends of
lines, blank cells, a short row, a name left out and one used twice. -/
def quotedText : String :=
  "expression,\"say \"\"hi\"\", twice\",,expression,error,angle_mode\n" ++
    "\"1+\n2\",NA,007,\"x,\r\ny\",old,Degrees\n tan(45),\t,,\"\"\"\"\nnosuch(1),1e5\n"

/-- The table that is read from it. -/
def quotedTable : Table where
  columns := ["expression", "say \"hi\", twice", "Unnamed: 2", "expression.1", "error", "angle_mode"]
  rows := [
    [.text "1+\n2", .text "NA", .text "007", .text "x,\r\ny", .text "old", .text "Degrees"],
    [.text " tan(45)", .text "\t", .text "", .text "\"", .text "", .text ""],
    [.text "nosuch(1)", .text "1e5", .text "", .text "", .text "", .text ""]]

/-- What a batch writes for it. -/
def quotedOutput : String :=
  "expression,\"say \"\"hi\"\", twice\",Unnamed: 2,expression.1,error,angle_mode,value,display\n" ++
    "\"1+\n2\",NA,007,\"x,\r\ny\",,Degrees,3.0,3\n" ++
    " tan(45),\t,,\"\"\"\",,,1.6197751905438615,1.6197751905\nnosuch(1),1e5,,,UnknownFunction,,,Error\n"

/-- A table that needs quotes in many places, run twice by an evaluator that had been used before. -/
theorem rerun_eq_quotedText :
    load .standard inRadians quotedText = .ok quotedTable ∧
      ∃ report table' report', evaluateAt .standard inRadians (some used) quotedTable = .ok report ∧
        report.table.write = quotedOutput ∧
        load .standard inRadians quotedOutput = .ok table' ∧
        table'.column? "expression" = some [.text "1+\n2", .text " tan(45)", .text "nosuch(1)"] ∧
        evaluateAt .standard inRadians (some (evaluateWith .standard inRadians used quotedTable).2)
          table' = .ok report' ∧
        report'.table.write = quotedOutput := by
  have hcreate : Evaluator.create .standard (some 1) none = .ok ⟨.degrees, .empty 1⟩ :=
    Evaluator.create_of_mode?_eq (by decide +kernel)
  have hused : used.Reached .standard := reached_evaluateWith (.create hcreate) inRadians mixed
  have hload : load .standard inRadians quotedText = .ok quotedTable :=
    load_eq_ok_iff.2 ⟨by decide +kernel, by decide +kernel⟩
  have hrun : (evaluateAt .standard inRadians (some used) quotedTable).toOption.map (fun report =>
      (report.table.write, report.table.column? "expression",
        report.table.writtenTexts.all fun text => !text.contains '\r' || text.any Table.needsQuotes)) =
      some (quotedOutput, some [.text "1+\n2", .text " tan(45)", .text "nosuch(1)"], true) := by
    decide +kernel
  cases hreport : evaluateAt .standard inRadians (some used) quotedTable with
  | error stop =>
    rw [hreport] at hrun
    cases hrun
  | ok report =>
    rw [hreport] at hrun
    obtain ⟨hwrite, hcolumn, hreturns⟩ : _ ∧ _ ∧ _ := by
      simpa only [Except.toOption, Option.map_some, Option.some.injEq, Prod.mk.injEq] using hrun
    have hevaluator : ∀ e ∈ some used, e.Reached .standard := by
      rintro e ⟨⟩
      exact hused
    have hagain : ∀ e ∈ some (evaluateWith .standard inRadians used quotedTable).2,
        e.Reached .standard := by
      rintro e ⟨⟩
      exact reached_evaluateWith hused inRadians quotedTable
    obtain ⟨table', report', hload', hcolumn', hreport', -, hwrite'⟩ := rerun_eq hevaluator hagain
      (congrArg some (setup_evaluateWith .standard inRadians used quotedTable)) (by decide +kernel)
      (by decide +kernel) hload hreport (by decide +kernel) (Table.quoted_of_all hreturns)
    rw [hwrite] at hload' hwrite'
    exact ⟨hload, report, table', report', rfl, hwrite, hload', hcolumn'.trans hcolumn, hreport', hwrite'⟩

/-- The file that a batch writes for a file, if it writes one. -/
def outputOf (s : Settings) (r : Request) (evaluator : Option Evaluator) (content : String) :
    Option String :=
  match load s r content with
  | .error _ => none
  | .ok table => (evaluateAt s r evaluator table).toOption.map (·.table.write)

/-- A carriage return that is not quoted ends the line when the output is read again. -/
theorem rerun_bareReturn_ne :
    "expression" ∉ resultColumns ∧ "angle_mode" ∉ resultColumns ∧
      outputOf .standard ⟨"expression", "angle_mode", none⟩ none "expression\n\"1+\r2\"\n" =
        some "expression,value,display,error\n1+\r2,3.0,3,\n" ∧
      outputOf .standard ⟨"expression", "angle_mode", none⟩ none
          "expression,value,display,error\n1+\r2,3.0,3,\n" =
        some "expression,value,display,error\n1+,,Error,InvalidExpression\n2,2.0,2,\n" ∧
      "expression,value,display,error\n1+,,Error,InvalidExpression\n2,2.0,2,\n" ≠
        "expression,value,display,error\n1+\r2,3.0,3,\n" := by
  decide +kernel

end Batch

end DeskCalculator
