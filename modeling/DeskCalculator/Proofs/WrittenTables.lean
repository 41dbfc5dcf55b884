import DeskCalculator.Proofs.ReadTables
import DeskCalculator.Table.Writer

/-!
# Reading what was written

A table that was written reads back as the table of its texts, `asTexts`: the names of its columns and the
texts of its cells, whatever commas, double quotes, line feeds, spaces and words there are. This is
`read_write`. What has to hold of the table is `Writable`. Two conditions are about its texts
(`Faithful`): a null character would end the cell, and a carriage return in a cell that is not quoted would
end the line. Where only the names of the columns may get lost, the rows are still read back
(`exists_read_write`).

The proof follows a line through the reader. In a cell the reader collects the characters, with or without
quotes; then a comma or a line feed ends it. A line that begins with spaces or tabs is read a second
time, and this comes to the same as if it had been read from the start of a cell at once (`foldl_between`).
-/

namespace DeskCalculator.Table

/-- The texts of a table, as they are before quoting. -/
def writtenTexts (t : Table) : List (List Char) :=
  t.columns.map String.toList ++ t.rows.flatMap (·.map cellText)

/-- A cell that holds the text of a cell. -/
def asText (cell : Cell) : Cell :=
  .text (String.ofList (cellText cell))

/-- The table with the texts of its cells in place of them. -/
def asTexts (t : Table) : Table where
  columns := t.columns
  rows := t.rows.map (·.map asText)

/-- A text that survives writing and reading: a carriage return in it is quoted together with something
else. -/
structure Faithful (text : List Char) : Prop where
  nullless : '\x00' ∉ text
  quoted : '\r' ∈ text → text.any needsQuotes = true

/-- A text that is not quoted has no carriage return, if it survives. -/
theorem Faithful.notMem_return {text : List Char} (h : Faithful text)
    (hquotes : text.any needsQuotes = false) : '\r' ∉ text := by
  intro hmem
  rw [h.quoted hmem] at hquotes
  cases hquotes

/-- Whether all carriage returns are quoted can be computed. -/
theorem quoted_of_all {texts : List (List Char)}
    (h : (texts.all fun text => !text.contains '\r' || text.any needsQuotes) = true) :
    ∀ text ∈ texts, '\r' ∈ text → text.any needsQuotes = true := by
  intro text htext hreturn
  have hquoted := List.all_eq_true.1 h text htext
  simpa [hreturn] using hquoted

/-- A table whose cells are told apart when it was written and is read again. -/
structure Separable (t : Table) : Prop where
  rectangular : t.Rectangular
  /-- An only column would have blank cells passed over. -/
  wide : 2 ≤ t.columns.length
  faithful : ∀ text ∈ t.writtenTexts, Faithful text

/-- A table that survives writing and reading: the names of its columns are also such as reading gives. -/
structure Writable (t : Table) : Prop extends Separable t where
  nodup : t.columns.Nodup
  named : "" ∉ t.columns
  unmarked : ∀ name ∈ t.columns, name.toList.head? ≠ some '\uFEFF'

/-- Commas, double quotes and line feeds need quotes, and nothing else. -/
theorem needsQuotes_eq_false_iff {c : Char} : needsQuotes c = false ↔ c ≠ ',' ∧ c ≠ '"' ∧ c ≠ '\n' := by
  simp [needsQuotes, and_assoc]

/-- In a line with more than one cell a comma follows the first. -/
theorem writeLine_cons_cons (first next : List Char) (texts : List (List Char)) :
    writeLine (first :: next :: texts) = writeField first ++
      ',' :: (List.intercalate [','] ((next :: texts).map writeField) ++ ['\n']) := by
  simp [writeLine, List.intercalate_cons_cons]

namespace Scan

variable {s : Scan} {text : List Char} {n : Nat} {records : List Record}

/-! ## Cells -/

/-- Where the reader may stand when it has read the text of a cell. -/
inductive AtEnd (text : List Char) : Place → Prop
  | plain : AtEnd text (.plain text.reverse)
  | quoted : AtEnd text (.afterQuote text.reverse)
  | empty (h : text = []) : AtEnd text .fieldStart

/-- A text that needs no quotes is collected as it is. -/
theorem foldl_plain (read : List Char) (h : text.any needsQuotes = false) (hreturn : '\r' ∉ text) :
    text.foldl step { s with place := .plain read } =
      { s with place := .plain (text.reverse ++ read) } := by
  induction text generalizing read with
  | nil => rfl
  | cons c text ih =>
    rw [List.any_cons, Bool.or_eq_false_iff, needsQuotes_eq_false_iff] at h
    obtain ⟨⟨hcomma, -, hnewline⟩, htext⟩ := h
    rw [List.mem_cons, not_or] at hreturn
    have hstep : step { s with place := .plain read } c = { s with place := .plain (c :: read) } := by
      simp only [step, stepWith, stepPlain, if_neg hcomma, if_neg hnewline, if_neg (Ne.symm hreturn.1)]
    rw [List.foldl_cons, hstep, ih (c :: read) htext hreturn.2, List.reverse_cons, List.append_assoc]
    rfl

/-- Two double quotes in quotes are one. -/
theorem foldl_quoted (read : List Char) :
    (doubleQuotes text).foldl step { s with place := .quoted read } =
      { s with place := .quoted (text.reverse ++ read) } := by
  induction text generalizing read with
  | nil => rfl
  | cons c text ih =>
    have hstep : (doubleQuotes [c]).foldl step { s with place := .quoted read } =
        { s with place := .quoted (c :: read) } := by
      by_cases hc : c = '"'
      · simp [doubleQuotes, hc, step, stepWith]
      · simp [doubleQuotes, hc, step, stepWith]
    have hcons : doubleQuotes (c :: text) = doubleQuotes [c] ++ doubleQuotes text := by
      simp [doubleQuotes]
    rw [hcons, List.foldl_append, hstep, ih (c :: read), List.reverse_cons, List.append_assoc]
    rfl

/-- Reading a written cell ends with its text, quoted or not. -/
theorem exists_foldl_writeField (h : Faithful text) (s : Scan) :
    ∃ place, AtEnd text place ∧
      (writeField text).foldl step { s with place := .fieldStart } = { s with place := place } := by
  unfold writeField
  cases hquotes : text.any needsQuotes with
  | true =>
    refine ⟨_, .quoted, ?_⟩
    have hopen : step { s with place := .fieldStart } '"' = { s with place := .quoted [] } := rfl
    rw [if_pos rfl, List.cons_append, List.foldl_cons, hopen, List.foldl_append, foldl_quoted,
      List.append_nil]
    rfl
  | false =>
    rw [if_neg Bool.false_ne_true]
    have hreturn := h.notMem_return hquotes
    cases text with
    | nil => exact ⟨_, .empty rfl, rfl⟩
    | cons c text =>
      refine ⟨_, .plain, ?_⟩
      rw [List.any_cons, Bool.or_eq_false_iff, needsQuotes_eq_false_iff] at hquotes
      obtain ⟨⟨hcomma, hquote, hnewline⟩, htext⟩ := hquotes
      rw [List.mem_cons, not_or] at hreturn
      have hstep : step { s with place := .fieldStart } c = { s with place := .plain [c] } := by
        simp only [step, stepWith, stepField, stepPlain, if_neg hcomma, if_neg hquote, if_neg hnewline,
          if_neg (Ne.symm hreturn.1)]
      rw [List.foldl_cons, hstep, foldl_plain [c] htext hreturn.2, List.reverse_cons]

/-- The text of a cell is what was collected, without null characters to end it. -/
theorem fieldText_reverse (h : '\x00' ∉ text) : fieldText text.reverse = String.ofList text := by
  have hall : ∀ c ∈ text, c ≠ '\x00' := by
    rintro c hc rfl
    exact h hc
  rw [fieldText, List.reverse_reverse, List.takeWhile_eq_self_iff.2 (by simpa using hall)]

/-- Ending a cell keeps the text that was collected. -/
theorem endField_reverse (h : '\x00' ∉ text) (s : Scan) (next : Place) :
    s.endField text.reverse next =
      { s with place := next, fields := String.ofList text :: s.fields } := by
  rw [endField, fieldText_reverse h]

/-- A comma or a line feed ends a written cell as it would end its plain text. -/
theorem foldl_writeField_append (h : Faithful text) (s : Scan) {c : Char} (hc : c = ',' ∨ c = '\n') :
    (writeField text ++ [c]).foldl step { s with place := .fieldStart } = s.stepPlain text.reverse c := by
  obtain ⟨place, hplace, hrun⟩ := exists_foldl_writeField h s
  rw [List.foldl_append, hrun]
  cases hplace with
  | plain => rcases hc with rfl | rfl <;> rfl
  | quoted => rcases hc with rfl | rfl <;> rfl
  | empty htext =>
    subst htext
    rcases hc with rfl | rfl <;> rfl

/-! ## Lines -/

/-- The cells of a line, from the first of them on. -/
theorem foldl_cells {text : List Char} {texts : List (List Char)} (h : ∀ x ∈ text :: texts, Faithful x)
    (s : Scan) :
    (List.intercalate [','] ((text :: texts).map writeField) ++ ['\n']).foldl step
        { s with place := .fieldStart } =
      { s with fields := ((text :: texts).map String.ofList).reverse ++ s.fields }.endRecord := by
  induction texts generalizing text s with
  | nil =>
    have htext := h text List.mem_cons_self
    have hend : s.stepPlain text.reverse '\n' = (s.endField text.reverse .lineStart).endRecord := rfl
    rw [List.map_singleton, List.intercalate_singleton, foldl_writeField_append htext s (.inr rfl), hend,
      endField_reverse htext.nullless]
    rfl
  | cons next texts ih =>
    rw [List.forall_mem_cons] at h
    have hcons : List.intercalate [','] ((text :: next :: texts).map writeField) ++ ['\n'] =
        (writeField text ++ [',']) ++
          (List.intercalate [','] ((next :: texts).map writeField) ++ ['\n']) := by
      simp [List.intercalate_cons_cons]
    have hend : s.stepPlain text.reverse ',' = s.endField text.reverse .fieldStart := rfl
    have hrest := ih h.2 { s with fields := String.ofList text :: s.fields }
    rw [hcons, List.foldl_append, foldl_writeField_append h.1 s (.inl rfl), hend,
      endField_reverse h.1.nullless, hrest]
    simp

/-- The reader between two lines. -/
def between (n : Nat) (records : List Record) : Scan :=
  ⟨.lineStart, [], n, records, []⟩

/-- Spaces and tabs are passed over at the start of a line, and nothing else. -/
theorem isPadding_iff {c : Char} : isPadding c = true ↔ c = ' ' ∨ c = '\t' := by
  simp [isPadding]

/-- Spaces and tabs at the start of a line are all passed over. -/
theorem foldl_padding {pad : List Char} (h : ∀ c ∈ pad, isPadding c = true) (passed : List Char) :
    pad.foldl step ⟨.padding, [], n, records, passed⟩ =
      ⟨.padding, [], n, records, pad.reverse ++ passed⟩ := by
  induction pad generalizing passed with
  | nil => rfl
  | cons c pad ih =>
    rw [List.forall_mem_cons] at h
    have hstep : step ⟨.padding, [], n, records, passed⟩ c = ⟨.padding, [], n, records, c :: passed⟩ := by
      rcases isPadding_iff.1 h.1 with rfl | rfl <;> rfl
    rw [List.foldl_cons, hstep, ih h.2, List.reverse_cons, List.append_assoc]
    rfl

/-- Read from the start of a cell, spaces and tabs are plain text, however characters are read again. -/
theorem foldl_stepWith_padding (reread : Scan → List Char → Scan) {c : Char} {pad : List Char}
    (h : ∀ x ∈ c :: pad, isPadding x = true) (s : Scan) :
    (c :: pad).foldl (stepWith reread) { s with place := .fieldStart } =
      { s with place := .plain (c :: pad).reverse } := by
  rw [List.forall_mem_cons] at h
  have hplain : ∀ read, pad.foldl (stepWith reread) { s with place := .plain read } =
      { s with place := .plain (pad.reverse ++ read) } := by
    replace h := h.2
    induction pad with
    | nil => exact fun read => rfl
    | cons d pad ih =>
      intro read
      rw [List.forall_mem_cons] at h
      have hstep : stepWith reread { s with place := .plain read } d =
          { s with place := .plain (d :: read) } := by
        rcases isPadding_iff.1 h.1 with rfl | rfl <;> rfl
      rw [List.foldl_cons, hstep, ih h.2, List.reverse_cons, List.append_assoc]
      rfl
  have hstep : stepWith reread { s with place := .fieldStart } c = { s with place := .plain [c] } := by
    rcases isPadding_iff.1 h.1 with rfl | rfl <;> rfl
  rw [List.foldl_cons, hstep, hplain, List.reverse_cons]

/-- A line may be read from the start of a cell at once, if what follows the spaces and tabs at its
beginning does not end it. -/
theorem foldl_between {pad : List Char} {c : Char} (hpad : ∀ x ∈ pad, isPadding x = true)
    (hc : isPadding c = false) (hnewline : c ≠ '\n') (hreturn : c ≠ '\r') (rest : List Char) :
    (pad ++ c :: rest).foldl step (between n records) =
      (pad ++ c :: rest).foldl step ⟨.fieldStart, [], n, records, []⟩ := by
  have hfirst : (pad ++ [c]).foldl step (between n records) =
      (pad ++ [c]).foldl step ⟨.fieldStart, [], n, records, []⟩ := by
    cases pad with
    | nil =>
      show (between n records).stepLine c = stepField ⟨.fieldStart, [], n, records, []⟩ c
      unfold stepLine stepField stepPlain
      rw [if_neg hnewline, if_neg hreturn, hc, if_neg Bool.false_ne_true]
      rfl
    | cons d pad =>
      have hpassed : (d :: pad).foldl step (between n records) =
          ⟨.padding, [], n, records, (d :: pad).reverse⟩ := by
        have hstep : step (between n records) d = ⟨.padding, [], n, records, [d]⟩ := by
          rcases isPadding_iff.1 (hpad d List.mem_cons_self) with rfl | rfl <;> rfl
        rw [List.foldl_cons, hstep, foldl_padding fun x hx => hpad x (List.mem_cons_of_mem _ hx),
          List.reverse_cons]
      have hplain : ∀ reread, (d :: pad).foldl (stepWith reread) ⟨.fieldStart, [], n, records, []⟩ =
          ⟨.plain (d :: pad).reverse, [], n, records, []⟩ :=
        fun reread => foldl_stepWith_padding reread hpad ⟨.fieldStart, [], n, records, []⟩
      rw [List.foldl_append, List.foldl_append, hpassed]
      -- the first other character has the line read again up to itself, and both ways lead through the
      -- same plain text
      calc step ⟨.padding, [], n, records, (d :: pad).reverse⟩ c
          = (d :: pad ++ [c]).foldl (stepWith (readWith (d :: pad).length))
              ⟨.fieldStart, [], n, records, []⟩ := by
            simp only [step, stepWith, if_neg hnewline, if_neg hreturn, hc, if_neg Bool.false_ne_true,
              List.reverse_reverse, List.length_append, List.length_singleton, readWith]
        _ = step ⟨.plain (d :: pad).reverse, [], n, records, []⟩ c := by
            rw [List.foldl_append, hplain]
            rfl
        _ = [c].foldl step ((d :: pad).foldl step ⟨.fieldStart, [], n, records, []⟩) :=
            congrArg (step · c) (hplain fun s chars => readWith chars.length s chars).symm
  rw [List.append_cons, List.foldl_append, hfirst, ← List.foldl_append]

/-- The beginning of a written line: the first character that is no space or tab does not end the line. -/
theorem exists_padding_writeField (h : Faithful text) (rest : List Char) :
    ∃ pad c more, writeField text ++ ',' :: rest = pad ++ c :: more ∧
      (∀ x ∈ pad, isPadding x = true) ∧ isPadding c = false ∧ c ≠ '\n' ∧ c ≠ '\r' := by
  unfold writeField
  cases hquotes : text.any needsQuotes with
  | true =>
    rw [if_pos rfl]
    exact ⟨[], '"', _, rfl, by simp, by decide, by decide, by decide⟩
  | false =>
    rw [if_neg Bool.false_ne_true]
    have hplain : ∀ c ∈ text, c ≠ '\n' ∧ c ≠ '\r' := by
      intro c hc
      have hneeds := Bool.eq_false_of_not_eq_true (List.any_eq_false.1 hquotes c hc)
      refine ⟨(needsQuotes_eq_false_iff.1 hneeds).2.2, ?_⟩
      rintro rfl
      exact h.notMem_return hquotes hc
    obtain ⟨pad, rest', hsplit, hpad, hrest'⟩ : ∃ pad rest', text = pad ++ rest' ∧
        (∀ x ∈ pad, isPadding x = true) ∧ ∀ c ∈ rest'.head?, isPadding c = false := by
      refine ⟨text.takeWhile isPadding, text.dropWhile isPadding,
        (List.takeWhile_append_dropWhile ..).symm, fun x hx => List.mem_takeWhile_imp hx, ?_⟩
      intro c hc
      simpa [Option.mem_def.1 hc] using List.head?_dropWhile_not isPadding text
    subst hsplit
    cases rest' with
    | nil => exact ⟨pad, ',', rest, by simp, hpad, by decide, by decide, by decide⟩
    | cons c rest' =>
      have hc := hplain c (List.mem_append_right _ List.mem_cons_self)
      exact ⟨pad, c, rest' ++ ',' :: rest, by simp, hpad, hrest' c rfl, hc.1, hc.2⟩

/-- A written line with more than one cell is a record of its texts. -/
theorem foldl_writeLine {texts : List (List Char)} (hwide : 2 ≤ texts.length)
    (h : ∀ x ∈ texts, Faithful x) (n : Nat) (records : List Record) :
    (writeLine texts).foldl step (between n records) =
      between (n + 1) (⟨texts.map String.ofList, n + 1⟩ :: records) := by
  obtain ⟨first, next, texts, rfl⟩ : ∃ first next rest, texts = first :: next :: rest := by
    match texts, hwide with
    | first :: next :: rest, _ => exact ⟨first, next, rest, rfl⟩
  obtain ⟨pad, c, more, hsplit, hpad, hc, hnewline, hreturn⟩ :=
    exists_padding_writeField (h first List.mem_cons_self)
      (List.intercalate [','] ((next :: texts).map writeField) ++ ['\n'])
  have hcells := foldl_cells h ⟨.fieldStart, [], n, records, []⟩
  calc (writeLine (first :: next :: texts)).foldl step (between n records)
      = (writeLine (first :: next :: texts)).foldl step ⟨.fieldStart, [], n, records, []⟩ := by
        rw [writeLine_cons_cons, hsplit, foldl_between hpad hc hnewline hreturn]
    _ = between (n + 1) (⟨(first :: next :: texts).map String.ofList, n + 1⟩ :: records) := by
        rw [writeLine, if_neg (by simp), hcells]
        simp [endRecord, between]

/-- Written lines are records of their texts. -/
theorem exists_foldl_writeLine {lines : List (List (List Char))} (hwide : ∀ line ∈ lines, 2 ≤ line.length)
    (h : ∀ line ∈ lines, ∀ x ∈ line, Faithful x) (n : Nat) (records : List Record) :
    ∃ new : List Record, new.map Record.fields = lines.map (·.map String.ofList) ∧
      (lines.flatMap writeLine).foldl step (between n records) =
        between (n + lines.length) (new.reverse ++ records) := by
  induction lines generalizing n records with
  | nil => exact ⟨[], rfl, rfl⟩
  | cons line lines ih =>
    rw [List.forall_mem_cons] at hwide h
    obtain ⟨new, hnew, hrun⟩ := ih hwide.2 h.2 (n + 1) (⟨line.map String.ofList, n + 1⟩ :: records)
    refine ⟨⟨line.map String.ofList, n + 1⟩ :: new, by rw [List.map_cons, hnew, List.map_cons], ?_⟩
    rw [List.flatMap_cons, List.foldl_append, foldl_writeLine hwide.1 h.1, hrun]
    simp [between, Nat.add_assoc, Nat.add_comm 1]

end Scan

/-! ## Tables -/

/-- Records of one width are rows. -/
theorem rowsOf_eq_of_forall {width : Nat} {records : List Record}
    (h : ∀ record ∈ records, record.fields.length = width) :
    rowsOf width records = .ok (records.map fun record => record.fields.map .text) := by
  induction records with
  | nil => rfl
  | cons record records ih =>
    rw [List.forall_mem_cons] at h
    rw [rowsOf, if_neg (by omega), ih h.2]
    simp [h.1]

/-- Lines of one width that were written are read as names and rows. -/
theorem read_of_lines {header : List (List Char)} {rows : List (List (List Char))} {text : String}
    (hwide : 2 ≤ header.length) (hwidths : ∀ row ∈ rows, row.length = header.length)
    (hfaithful : ∀ line ∈ header :: rows, ∀ x ∈ line, Faithful x)
    (htext : withoutMark text.toList = (header :: rows).flatMap writeLine) :
    read text = .ok
      ⟨columnNames (header.map String.ofList), rows.map (·.map fun x => .text (String.ofList x))⟩ := by
  have hlines : ∀ line ∈ header :: rows, 2 ≤ line.length :=
    List.forall_mem_cons.2 ⟨hwide, fun row hrow => (hwidths row hrow).symm ▸ hwide⟩
  obtain ⟨new, hnew, hrun⟩ := Scan.exists_foldl_writeLine hlines hfaithful 0 []
  obtain ⟨names, data, rfl⟩ : ∃ names data, new = names :: data := by
    cases new with
    | nil => simp at hnew
    | cons names data => exact ⟨names, data, rfl⟩
  simp only [List.map_cons, List.cons.injEq] at hnew
  obtain ⟨hnames, hdata⟩ := hnew
  have hlength : names.fields.length = header.length := by rw [hnames, List.length_map]
  have hcells : ∀ record ∈ data, record.fields.length = header.length := by
    intro record hrecord
    have hmem : record.fields ∈ data.map Record.fields := List.mem_map_of_mem hrecord
    rw [hdata] at hmem
    obtain ⟨row, hrow, hfields⟩ := List.mem_map.1 hmem
    rw [← hfields, List.length_map, hwidths row hrow]
  have hwidth : max header.length ((data.head?.map (·.fields.length)).getD 0) = header.length := by
    cases data with
    | nil => simp
    | cons record data => simp [hcells record List.mem_cons_self]
  have hscan : (withoutMark text.toList).foldl Scan.step Scan.start =
      Scan.between (header :: rows).length (names :: data).reverse := by
    rw [List.append_nil, Nat.zero_add] at hrun
    rw [htext]
    exact hrun
  have hfinish : (Scan.between (header :: rows).length (names :: data).reverse).finish = names :: data := by
    simp [Scan.finish, Scan.between]
  have hopen : (Scan.between (header :: rows).length (names :: data).reverse).isOpen = false := rfl
  have hrows : data.map (fun record => record.fields.map Cell.text) =
      rows.map (·.map fun x => .text (String.ofList x)) := by
    have hmap := congrArg (List.map (List.map Cell.text)) hdata
    simp only [List.map_map, Function.comp_def] at hmap
    exact hmap
  simp only [read, hscan, hfinish, hopen, hlength, hwidth, rowsOf_eq_of_forall hcells, hrows]
  simp [hnames]

/-- The lines of a written table. -/
def lines (t : Table) : List (List (List Char)) :=
  t.columns.map String.toList :: t.rows.map (·.map cellText)

/-- A written table is its written lines. -/
theorem toList_write (t : Table) : t.write.toList = t.lines.flatMap writeLine := by
  simp [write, lines, List.flatMap_map]

/-- The texts of a line are texts of the table. -/
theorem mem_writtenTexts_of_mem_lines {t : Table} {line : List (List Char)} (h : line ∈ t.lines)
    {text : List Char} (htext : text ∈ line) : text ∈ t.writtenTexts := by
  rw [writtenTexts, List.mem_append]
  rcases List.mem_cons.1 h with rfl | h
  · exact .inl htext
  · obtain ⟨row, hrow, rfl⟩ := List.mem_map.1 h
    exact .inr (List.mem_flatMap.2 ⟨row, hrow, htext⟩)

/-! ## Byte order marks -/

/-- A text that does not begin with a byte order mark loses none. -/
theorem withoutMark_eq_self {text : List Char} (h : text.head? ≠ some '\uFEFF') :
    withoutMark text = text := by
  cases text with
  | nil => rfl
  | cons c text => exact if_neg fun hc => h (congrArg some hc)

/-- A text that survives does so without its byte order mark. -/
theorem Faithful.withoutMark {text : List Char} (h : Faithful text) : Faithful (withoutMark text) := by
  cases text with
  | nil => exact h
  | cons c text =>
    by_cases hmark : c = '\uFEFF'
    · rw [Table.withoutMark, if_pos hmark]
      refine ⟨fun hnull => h.nullless (List.mem_cons_of_mem c hnull), fun hreturn => ?_⟩
      have hquotes := h.quoted (List.mem_cons_of_mem c hreturn)
      rwa [List.any_cons, hmark, show needsQuotes '\uFEFF' = false by decide, Bool.false_or] at hquotes
    · rwa [Table.withoutMark, if_neg hmark]

/-- A byte order mark at the beginning of a written line belongs to its first cell, if that is not quoted. -/
theorem exists_withoutMark_writeField (text rest : List Char) :
    ∃ text', (text' = text ∨ text' = withoutMark text) ∧
      withoutMark (writeField text ++ ',' :: rest) = writeField text' ++ ',' :: rest := by
  cases text with
  | nil => exact ⟨[], .inl rfl, rfl⟩
  | cons c text =>
    by_cases hmark : c = '\uFEFF' ∧ text.any needsQuotes = false
    · obtain ⟨rfl, hquotes⟩ := hmark
      have hplain : ('\uFEFF' :: text).any needsQuotes = false := by
        rw [List.any_cons, hquotes]
        decide
      refine ⟨text, .inr rfl, ?_⟩
      rw [writeField, writeField, hplain, hquotes]
      rfl
    · refine ⟨c :: text, .inl rfl, withoutMark_eq_self ?_⟩
      -- the line begins with a double quote, or with a character that is no mark
      unfold writeField
      split
      · simp
      next hquotes =>
        rw [List.any_cons, Bool.or_eq_true, not_or, Bool.not_eq_true, Bool.not_eq_true] at hquotes
        simpa using fun hc => hmark ⟨hc, hquotes.2⟩

/-- Of a written table nothing is passed over but a byte order mark before the name of the first column. -/
theorem Separable.exists_withoutMark_write {t : Table} (h : t.Separable) :
    ∃ header, (header = t.columns.map String.toList ∨
        header = (t.columns.map String.toList).modifyHead withoutMark) ∧
      withoutMark t.write.toList = (header :: t.rows.map (·.map cellText)).flatMap writeLine := by
  obtain ⟨columns, rows⟩ := t
  obtain ⟨first, next, names, rfl⟩ : ∃ first next rest, columns = first :: next :: rest := by
    match columns, h.wide with
    | first :: next :: rest, _ => exact ⟨first, next, rest, rfl⟩
  obtain ⟨first', hfirst, hwritten⟩ := exists_withoutMark_writeField first.toList
    (List.intercalate [','] ((next.toList :: names.map String.toList).map writeField) ++
      '\n' :: (rows.map (·.map cellText)).flatMap writeLine)
  refine ⟨first' :: next.toList :: names.map String.toList, ?_, ?_⟩
  · rcases hfirst with rfl | rfl
    · exact .inl rfl
    · exact .inr rfl
  · simpa [toList_write, lines, writeLine_cons_cons] using hwritten

/-- A table that was written is read with its rows. Only a byte order mark at the beginning is lost, and names
of columns that are missing or not the first of their kind are replaced. -/
theorem exists_read_write {t : Table} (h : t.Separable) :
    ∃ header, (header = t.columns.map String.toList ∨
        header = (t.columns.map String.toList).modifyHead withoutMark) ∧
      read t.write = .ok ⟨columnNames (header.map String.ofList), t.asTexts.rows⟩ := by
  obtain ⟨header, hheader, hwritten⟩ := h.exists_withoutMark_write
  refine ⟨header, hheader, ?_⟩
  have hlength : header.length = t.columns.length := by
    rcases hheader with rfl | rfl <;> simp
  have hwidths : ∀ line ∈ t.rows.map (·.map cellText), line.length = header.length := by
    intro line hline
    obtain ⟨row, hrow, rfl⟩ := List.mem_map.1 hline
    rw [List.length_map, h.rectangular row hrow, hlength]
  have hnames : ∀ name ∈ t.columns.map String.toList, Faithful name := fun name hname =>
    h.faithful name (List.mem_append_left _ hname)
  have hheaderFaithful : ∀ name ∈ header, Faithful name := by
    rcases hheader with rfl | rfl
    · exact hnames
    · cases hcolumns : t.columns.map String.toList with
      | nil => simp
      | cons first names =>
        rw [hcolumns, List.forall_mem_cons] at hnames
        exact List.forall_mem_cons.2 ⟨hnames.1.withoutMark, hnames.2⟩
  have hfaithful : ∀ line ∈ header :: t.rows.map (·.map cellText), ∀ text ∈ line, Faithful text := by
    refine List.forall_mem_cons.2 ⟨hheaderFaithful, fun line hline text htext => ?_⟩
    exact h.faithful text (mem_writtenTexts_of_mem_lines (List.mem_cons_of_mem _ hline) htext)
  rw [read_of_lines (hlength ▸ h.wide) hwidths hfaithful hwritten]
  simp [asTexts, asText, Function.comp_def]

/-- A table that was written reads back as its texts. -/
theorem read_write {t : Table} (h : t.Writable) : read t.write = .ok t.asTexts := by
  obtain ⟨header, hheader, hread⟩ := exists_read_write h.toSeparable
  have hunmarked : (t.columns.map String.toList).modifyHead withoutMark = t.columns.map String.toList := by
    cases hcolumns : t.columns with
    | nil => rfl
    | cons first names =>
      have hfirst := h.unmarked first (hcolumns ▸ List.mem_cons_self)
      simp [withoutMark_eq_self hfirst]
  have hnames : header = t.columns.map String.toList := hheader.elim id (·.trans hunmarked)
  have hcolumns : columnNames (header.map String.ofList) = t.columns := by
    rw [hnames, List.map_map, show String.ofList ∘ String.toList = id from funext fun name => by simp, List.map_id,
      columnNames_eq_self h.nodup h.named]
  rw [hread, hcolumns]
  rfl

/-! ## Tables that are written alike -/

/-- What a table is written as depends on its lines alone. -/
theorem write_eq_of_lines_eq {t t' : Table} (h : t.lines = t'.lines) : t.write = t'.write := by
  rw [← String.toList_inj, toList_write, toList_write, h]

/-- A cell holds the text of the cell that it was made from. -/
@[simp] theorem cellText_asText (cell : Cell) : cellText (asText cell) = cellText cell := by
  simp [asText, cellText]

/-- A table of texts has the same lines. -/
theorem lines_asTexts (t : Table) : t.asTexts.lines = t.lines := by
  simp [lines, asTexts, Function.comp_def]

/-- A table of texts is as rectangular as the table. -/
theorem Rectangular.asTexts {t : Table} (h : t.Rectangular) : t.asTexts.Rectangular := by
  intro row hrow
  obtain ⟨source, hsource, rfl⟩ := List.mem_map.1 hrow
  rw [List.length_map]
  exact h source hsource

/-- A table that was read holds texts already. -/
theorem Readable.asTexts_eq {t : Table} (h : t.Readable) : t.asTexts = t := by
  obtain ⟨columns, rows⟩ := t
  have hrow : ∀ row ∈ rows, row.map asText = row := by
    intro row hrow
    refine (List.map_congr_left fun cell hcell => ?_).trans row.map_id
    obtain ⟨text, rfl, -⟩ := h.texts row hrow cell hcell
    simp [asText, cellText]
  exact congrArg (Table.mk columns) ((List.map_congr_left hrow).trans rows.map_id)

/-- The columns of a table of texts are those of the table, as texts. -/
theorem column?_asTexts {t : Table} (h : t.Rectangular) (column : String) :
    t.asTexts.column? column = (t.column? column).map (·.map asText) := by
  have hplaces : t.asTexts.place? column = t.place? column := rfl
  rw [column?, column?, hplaces]
  cases hplace : t.place? column with
  | none => rfl
  | some place =>
    have hlt := (List.getElem?_eq_some_iff.1 (getElem?_of_findIdx?_eq_some hplace)).1
    simp only [Option.map_some, asTexts, List.map_map, Option.some.injEq]
    apply List.map_congr_left
    intro row hrow
    rw [← h row hrow] at hlt
    simp [cellAt, hlt]

/-- Setting a cell to one of the same text changes no text. -/
theorem map_cellText_set {row : List Cell} {place : Nat} {cell : Cell}
    (h : cellText cell = cellText (cellAt row place)) :
    (row.set place cell).map cellText = row.map cellText := by
  rw [List.map_set, h]
  by_cases hplace : place < row.length
  · have hlt : place < (row.map cellText).length := by simpa using hplace
    have hcell : cellText (cellAt row place) = (row.map cellText)[place] := by simp [cellAt, hplace]
    rw [hcell, List.set_getElem_self]
  · exact List.set_eq_of_length_le (by simpa using hplace)

/-- A column may be set to cells of the same texts. -/
theorem lines_setColumn {t : Table} {column : String} {old cells : List Cell}
    (hold : t.column? column = some old) (hsame : cells.map cellText = old.map cellText) :
    (t.setColumn column cells).lines = t.lines := by
  obtain ⟨place, hplace, rfl⟩ := Option.map_eq_some_iff.1 hold
  obtain ⟨columns, rows⟩ := t
  simp only [setColumn, hplace, lines, List.cons.injEq, true_and]
  rw [List.map_map] at hsame
  clear hplace hold
  induction rows generalizing cells with
  | nil => rfl
  | cons row rows ih =>
    cases cells with
    | nil => simp at hsame
    | cons cell cells =>
      simp only [List.map_cons, List.cons.injEq, Function.comp_apply] at hsame
      obtain ⟨hcell, hcells⟩ := hsame
      rw [List.zipWith_cons_cons, List.map_cons, List.map_cons, ih hcells, map_cellText_set hcell]

end DeskCalculator.Table
