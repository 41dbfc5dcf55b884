import DeskCalculator.Proofs.ColumnNames
import DeskCalculator.Proofs.Columns

/-!
# Tables that were read

Whatever text a table is read from, all its rows are as wide as the header and all its cells hold text:
shorter lines are filled up with empty cells, and what the lines of data have in excess is cut off. Its
columns have different names, none of them empty, and no name and no text holds a null character.

The last is an invariant of the reader (`Scan.Nullless`). It holds at every step because it holds of each
cell when it is ended, and what is read again is read by the same steps.
-/

namespace DeskCalculator.Table

/-! ## Null characters -/

namespace Scan

variable {s : Scan} {c : Char}

/-- No cell that was read holds a null character. -/
structure Nullless (s : Scan) : Prop where
  fields : ∀ field ∈ s.fields, '\x00' ∉ field.toList
  records : ∀ record ∈ s.records, ∀ field ∈ record.fields, '\x00' ∉ field.toList

/-- The text of a cell has no null character. -/
theorem notMem_fieldText (read : List Char) : '\x00' ∉ (fieldText read).toList := by
  rw [fieldText, String.toList_ofList]
  intro hmem
  simpa using List.mem_takeWhile_imp hmem

/-- Nothing was read yet, so nothing holds a null character. -/
theorem nullless_start : start.Nullless := by
  constructor <;> simp [start]

/-- Ending a cell adds one without null characters. -/
theorem Nullless.endField (h : s.Nullless) (read : List Char) (next : Place) :
    (s.endField read next).Nullless where
  fields := List.forall_mem_cons.2 ⟨notMem_fieldText read, h.fields⟩
  records := h.records

/-- Ending a line adds a record of cells without null characters. -/
theorem Nullless.endRecord (h : s.Nullless) : s.endRecord.Nullless where
  fields := by simp [Scan.endRecord]
  records := List.forall_mem_cons.2
    ⟨fun field hfield => h.fields field (List.mem_reverse.1 hfield), h.records⟩

/-- Where the reader stands, the number of the line and what was passed over do not matter. -/
theorem Nullless.of_same {s' : Scan} (h : s.Nullless) (hfields : s'.fields = s.fields)
    (hrecords : s'.records = s.records) : s'.Nullless where
  fields := hfields ▸ h.fields
  records := hrecords ▸ h.records

/-- Outside quotes no character puts a null character into a cell. -/
theorem Nullless.stepPlain (h : s.Nullless) (read : List Char) (c : Char) :
    (s.stepPlain read c).Nullless := by
  unfold Scan.stepPlain
  split_ifs
  · exact h.endField read _
  · exact (h.endField read _).endRecord
  · exact h.endField read _
  · exact h.of_same rfl rfl

/-- At the start of a cell no character puts a null character into it. -/
theorem Nullless.stepField (h : s.Nullless) (c : Char) : (s.stepField c).Nullless := by
  unfold Scan.stepField
  split_ifs
  · exact h.of_same rfl rfl
  · exact h.stepPlain [] c

/-- At the start of a line no character puts a null character into a cell. -/
theorem Nullless.stepLine (h : s.Nullless) (c : Char) : (s.stepLine c).Nullless := by
  unfold Scan.stepLine
  split_ifs
  · exact h.of_same rfl rfl
  · exact h.of_same rfl rfl
  · exact h.of_same rfl rfl
  · exact h.stepField c

/-- No character puts a null character into a cell, wherever it is read, if reading characters again does not. -/
theorem Nullless.stepWith {reread : Scan → List Char → Scan}
    (hreread : ∀ s chars, s.Nullless → (reread s chars).Nullless) (h : s.Nullless) (c : Char) :
    (s.stepWith reread c).Nullless := by
  unfold Scan.stepWith
  split
  case h_1 => exact h.stepLine c
  case h_2 =>
    split_ifs
    · exact h.of_same rfl rfl
    · exact h.of_same rfl rfl
    · exact h.of_same rfl rfl
    · exact hreread _ _ (h.of_same rfl rfl)
  case h_3 => exact h.stepField c
  case h_4 => exact h.stepPlain _ c
  case h_5 => split_ifs <;> exact h.of_same rfl rfl
  case h_6 =>
    split_ifs
    · exact h.of_same rfl rfl
    · exact h.stepPlain _ c
  case h_7 =>
    split_ifs
    · exact h.endRecord
    · exact h.endRecord.endField _ _
    · exact h.endRecord.stepLine c
  case h_8 =>
    split_ifs
    · exact h.of_same rfl rfl
    · exact h.of_same rfl rfl
    · exact h.stepLine c

/-- The induction is on the depth: at each one, what is read again is read at a smaller one. -/
theorem Nullless.readWith (h : s.Nullless) (depth : Nat) (chars : List Char) :
    (readWith depth s chars).Nullless := by
  induction depth generalizing s chars with
  | zero => exact h
  | succ depth ih =>
    rw [Scan.readWith]
    induction chars generalizing s with
    | nil => exact h
    | cons c chars ihchars => exact ihchars (h.stepWith (fun _ chars h => ih h chars) c)

/-- No text puts a null character into a cell. -/
theorem Nullless.foldl (h : s.Nullless) (chars : List Char) : (chars.foldl step s).Nullless := by
  induction chars generalizing s with
  | nil => exact h
  | cons c chars ih => exact ih (h.stepWith (fun _ chars h => h.readWith _ chars) c)

/-- At the end of the text no record has a cell with a null character. -/
theorem Nullless.finish (h : s.Nullless) :
    ∀ record ∈ s.finish, ∀ field ∈ record.fields, '\x00' ∉ field.toList := by
  intro record hrecord
  unfold Scan.finish at hrecord
  rw [List.mem_reverse] at hrecord
  split at hrecord
  case h_5 => exact (h.endField [] _).endRecord.records record hrecord
  case h_6 => exact (h.endField _ _).endRecord.records record hrecord
  case h_7 => exact (h.endField _ _).endRecord.records record hrecord
  case h_8 => exact h.endRecord.records record hrecord
  all_goals exact h.records record hrecord

end Scan

/-! ## Tables -/

/-- What comes of reading: rows as wide as the header, with texts in all cells, and different names. -/
structure Readable (t : Table) : Prop where
  rectangular : t.Rectangular
  nodup : t.columns.Nodup
  named : "" ∉ t.columns
  names : ∀ name ∈ t.columns, '\x00' ∉ name.toList
  texts : ∀ row ∈ t.rows, ∀ cell ∈ row, ∃ text, cell = .text text ∧ '\x00' ∉ text.toList

/-- Settling keeps the number of names. -/
theorem length_settleNames (names settled : List String) (places : List Nat) :
    (settleNames names settled places).length = names.length := by
  induction places generalizing names settled with
  | nil => rfl
  | cons place places ih => simp [settleNames, ih]

/-- There is a name for each cell of the header. -/
theorem length_columnNames (header : List String) : (columnNames header).length = header.length := by
  simp [columnNames, length_settleNames]

/-- The rows of a given width have that width, and their cells hold the texts of the records or none. -/
theorem rowsOf_eq_ok {width : Nat} {records : List Record} {rows : List (List Cell)}
    (h : rowsOf width records = .ok rows) :
    ∀ row ∈ rows, row.length = width ∧ ∀ cell ∈ row, ∃ text, cell = .text text ∧
      (text = "" ∨ ∃ record ∈ records, text ∈ record.fields) := by
  induction records generalizing rows with
  | nil =>
    obtain rfl := Except.ok.inj h
    simp
  | cons record records ih =>
    rw [rowsOf] at h
    split at h
    · cases h
    next hwidth =>
      split at h
      next rest hrest =>
        obtain rfl := Except.ok.inj h
        intro row hrow
        rcases List.mem_cons.1 hrow with rfl | hrow
        · refine ⟨by simp; omega, fun cell hcell => ?_⟩
          simp only [List.mem_append, List.mem_map, List.mem_replicate] at hcell
          obtain ⟨text, htext, rfl⟩ | ⟨-, rfl⟩ := hcell
          · exact ⟨text, rfl, .inr ⟨record, List.mem_cons_self, htext⟩⟩
          · exact ⟨"", rfl, .inl rfl⟩
        · obtain ⟨hwidth, htexts⟩ := ih hrest row hrow
          refine ⟨hwidth, fun cell hcell => ?_⟩
          obtain ⟨text, rfl, hempty | ⟨record, hrecord, htext⟩⟩ := htexts cell hcell
          · exact ⟨text, rfl, .inl hempty⟩
          · exact ⟨text, rfl, .inr ⟨record, List.mem_cons_of_mem _ hrecord, htext⟩⟩
      · cases h

/-- What a text that is read consists of: a first record for the names, and records that fit for the
rows. -/
theorem exists_records_of_read {text : String} {t : Table} (h : read text = .ok t) :
    ∃ header data rows width,
      ((withoutMark text.toList).foldl Scan.step Scan.start).finish = header :: data ∧
        ((withoutMark text.toList).foldl Scan.step Scan.start).isOpen = false ∧
        width = max header.fields.length ((data.head?.map (·.fields.length)).getD 0) ∧
        rowsOf width data = .ok rows ∧
        t = ⟨columnNames header.fields, rows.map (·.drop (width - header.fields.length))⟩ := by
  unfold read at h
  simp only at h
  split at h
  · cases h
  next header data hfinish =>
    split at h
    · cases h
    next rows hrows =>
      split at h
      · cases h
      next hopen =>
        exact ⟨header, data, rows, _, hfinish, (Bool.not_eq_true _).mp hopen, rfl, hrows,
          (Except.ok.inj h).symm⟩

/-- Digits are no null characters. -/
theorem notMem_toDigits (n : Nat) : '\x00' ∉ Nat.toDigits 10 n := by
  intro hmem
  have hdigit := Nat.isDigit_of_mem_toDigits (by decide) (by decide) hmem
  exact absurd hdigit (by decide)

/-- Whatever is read is a readable table. -/
theorem readable_of_read {text : String} {t : Table} (h : read text = .ok t) : t.Readable := by
  obtain ⟨header, data, rows, width, hfinish, -, hwidth, hrows, rfl⟩ := exists_records_of_read h
  have hall := rowsOf_eq_ok hrows
  have hnull := (Scan.nullless_start.foldl (withoutMark text.toList)).finish
  rw [hfinish, List.forall_mem_cons] at hnull
  constructor
  · intro row hrow
    obtain ⟨source, hsource, rfl⟩ := List.mem_map.1 hrow
    rw [List.length_drop, (hall source hsource).1, length_columnNames]
    omega
  · exact nodup_columnNames header.fields
  · have hne : ∀ name ∈ columnNames header.fields, name ≠ "" :=
      columnNames_of_closed (by simp) (by simp) fun name _ hname => hname
    exact fun hmem => hne "" hmem rfl
  · refine columnNames_of_closed (fun name k hname => ?_) (fun place => ?_)
      (fun name hmem _ => hnull.1 name hmem)
    · rw [show s!"{name}.{k + 1}" = name ++ "." ++ toString (k + 1) from rfl]
      simp [hname, notMem_toDigits]
    · rw [show s!"Unnamed: {place}" = "Unnamed: " ++ toString place from rfl]
      simp [notMem_toDigits]
  · intro row hrow cell hcell
    obtain ⟨source, hsource, rfl⟩ := List.mem_map.1 hrow
    obtain ⟨text, rfl, rfl | ⟨record, hrecord, htext⟩⟩ :=
      (hall source hsource).2 cell (List.mem_of_mem_drop hcell)
    · exact ⟨"", rfl, by simp⟩
    · exact ⟨text, rfl, hnull.2 record hrecord text htext⟩

/-- A column of a table that was read holds a text in every row. -/
theorem Readable.exists_cellAt_eq {t : Table} (h : t.Readable) {column : String}
    (hcolumn : column ∈ t.columns) :
    ∃ place, t.place? column = some place ∧
      ∀ row ∈ t.rows, ∃ text, cellAt row place = .text text := by
  cases hplace : t.place? column with
  | none => exact absurd hcolumn (findIdx?_eq_none_iff_notMem.1 hplace)
  | some place =>
    refine ⟨place, rfl, fun row hrow => ?_⟩
    have hlt : place < row.length := by
      rw [h.rectangular row hrow]
      exact (List.getElem?_eq_some_iff.1 (getElem?_of_findIdx?_eq_some hplace)).1
    rw [cellAt, List.getElem?_eq_getElem hlt]
    obtain ⟨text, htext, -⟩ := h.texts row hrow _ (List.getElem_mem hlt)
    exact ⟨text, htext⟩

end DeskCalculator.Table
