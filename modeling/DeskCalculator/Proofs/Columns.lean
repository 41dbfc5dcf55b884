import DeskCalculator.Table.Basic

/-!
# Setting a column of a table

A column that is set stands where the table had it, or last if the table had none of that name, and all
other columns keep their places and their cells. This needs a table whose rows are as wide as it has
columns (`Table.Rectangular`), and as many new cells as there are rows.

`namesWith` and `rowWith` say what setting a column does to the names and to one row, so a table with a
column set is made of its rows one by one (`setColumn_eq`).
-/

namespace DeskCalculator.Table

variable {columns : List String} {t : Table} {column other : String} {row : List Cell} {cell : Cell}

/-- Every row has a cell for each column and no more. -/
def Rectangular (t : Table) : Prop :=
  ∀ row ∈ t.rows, row.length = t.columns.length

/-- The names of the columns when the one of the given name is set. -/
def namesWith (columns : List String) (column : String) : List String :=
  if column ∈ columns then columns else columns ++ [column]

/-- A row when its cell in a column is set. -/
def rowWith (columns : List String) (column : String) (row : List Cell) (cell : Cell) : List Cell :=
  match columns.findIdx? (· = column) with
  | some place => row.set place cell
  | none => row ++ [cell]

/-- A column is not found exactly if it is not there. -/
theorem findIdx?_eq_none_iff_notMem : columns.findIdx? (· = column) = none ↔ column ∉ columns := by
  rw [List.findIdx?_eq_none_iff]
  constructor
  · intro h hmem
    simpa using h column hmem
  · intro h name hname
    simp only [decide_eq_false_iff_not]
    rintro rfl
    exact h hname

/-- At the place that is found stands the column. -/
theorem getElem?_of_findIdx?_eq_some {place : Nat} (h : columns.findIdx? (· = column) = some place) :
    columns[place]? = some column := by
  obtain ⟨hlt, hname, -⟩ := List.findIdx?_eq_some_iff_getElem.1 h
  rw [List.getElem?_eq_getElem hlt, of_decide_eq_true hname]

/-- Setting a column sets its cell in every row. -/
theorem setColumn_eq (t : Table) (column : String) (cells : List Cell) :
    t.setColumn column cells =
      ⟨namesWith t.columns column, t.rows.zipWith (rowWith t.columns column) cells⟩ := by
  unfold setColumn place? rowWith namesWith
  cases hplace : t.columns.findIdx? (· = column) with
  | none => rw [if_neg (findIdx?_eq_none_iff_notMem.1 hplace)]
  | some place =>
    rw [if_pos (List.mem_of_getElem? (getElem?_of_findIdx?_eq_some hplace))]

/-- Setting a cell leaves the row as wide as the columns. -/
theorem length_rowWith (h : row.length = columns.length) (column : String) (cell : Cell) :
    (rowWith columns column row cell).length = (namesWith columns column).length := by
  unfold rowWith namesWith
  cases hplace : columns.findIdx? (· = column) with
  | none =>
    rw [if_neg (findIdx?_eq_none_iff_notMem.1 hplace), List.length_append, List.length_append, h]
    rfl
  | some place =>
    rw [if_pos (List.mem_of_getElem? (getElem?_of_findIdx?_eq_some hplace)), List.length_set, h]

/-- The column that was set has a place, and there stands the new cell of each row. -/
theorem exists_findIdx?_namesWith (columns : List String) (column : String) :
    ∃ place, (namesWith columns column).findIdx? (· = column) = some place ∧
      ∀ row cell, row.length = columns.length → cellAt (rowWith columns column row cell) place = cell := by
  unfold rowWith namesWith
  cases hplace : columns.findIdx? (· = column) with
  | some place =>
    have hname := getElem?_of_findIdx?_eq_some hplace
    rw [if_pos (List.mem_of_getElem? hname)]
    refine ⟨place, hplace, ?_⟩
    intro row cell hrow
    have hlt : place < row.length := by
      rw [hrow]
      exact (List.getElem?_eq_some_iff.1 hname).1
    simp only [cellAt, List.getElem?_set_self hlt, Option.getD_some]
  | none =>
    rw [if_neg (findIdx?_eq_none_iff_notMem.1 hplace)]
    refine ⟨columns.length, by simp [List.findIdx?_append, hplace], ?_⟩
    intro row cell hrow
    simp only [cellAt, ← hrow, List.getElem?_concat_length, Option.getD_some]

/-- Another column keeps its cell in each row. -/
theorem cellAt_rowWith_of_ne {place : Nat} (hplace : columns[place]? = some other)
    (hne : other ≠ column) (hrow : row.length = columns.length) (cell : Cell) :
    cellAt (rowWith columns column row cell) place = cellAt row place := by
  unfold rowWith cellAt
  cases hset : columns.findIdx? (· = column) with
  | some set =>
    have hother : set ≠ place := by
      rintro rfl
      rw [getElem?_of_findIdx?_eq_some hset] at hplace
      exact hne (Option.some.inj hplace).symm
    simp only [List.getElem?_set_ne hother]
  | none =>
    have hlt : place < row.length := by
      rw [hrow]
      exact (List.getElem?_eq_some_iff.1 hplace).1
    simp only [List.getElem?_append_left hlt]

/-- A cell of a row in which one was set is an old one or the new one. -/
theorem mem_or_eq_of_mem_rowWith {new : Cell} (h : cell ∈ rowWith columns column row new) :
    cell ∈ row ∨ cell = new := by
  unfold rowWith at h
  split at h
  · exact List.mem_or_eq_of_mem_set h
  · simpa using h

/-- Another column keeps its place. -/
theorem findIdx?_namesWith_of_ne (hne : other ≠ column) (columns : List String) :
    (namesWith columns column).findIdx? (· = other) = columns.findIdx? (· = other) := by
  unfold namesWith
  split
  · rfl
  · simp [List.findIdx?_append, hne.symm]

/-- Adding a name leaves the others at their places. -/
theorem getElem?_namesWith {place : Nat} (hplace : columns[place]? = some other) (column : String) :
    (namesWith columns column)[place]? = some other := by
  unfold namesWith
  split
  · exact hplace
  · rw [List.getElem?_append_left (List.getElem?_eq_some_iff.1 hplace).1]
    exact hplace

/-! ## Whole tables -/

variable {cells : List Cell}

/-- Setting a column changes no number of rows. -/
theorem length_rows_setColumn (h : cells.length = t.rows.length) (column : String) :
    (t.setColumn column cells).rows.length = t.rows.length := by
  rw [setColumn_eq, List.length_zipWith, h, Nat.min_self]

/-- Setting a column leaves the table rectangular. -/
theorem Rectangular.setColumn (h : t.Rectangular) (column : String) (cells : List Cell) :
    (t.setColumn column cells).Rectangular := by
  intro row hrow
  rw [setColumn_eq] at hrow ⊢
  rw [← List.map_uncurry_zip_eq_zipWith] at hrow
  obtain ⟨⟨old, cell⟩, hmem, rfl⟩ := List.mem_map.1 hrow
  exact length_rowWith (h old (List.of_mem_zip hmem).1) column cell

/-- What is read from the rows after a column was set, if it is a matter of the old row and the new cell. -/
theorem map_rows_setColumn {α : Type} {read : List Cell → α} {f : List Cell × Cell → α}
    (h : t.Rectangular)
    (hread : ∀ row cell, row.length = t.columns.length →
      read (rowWith t.columns column row cell) = f (row, cell)) :
    (t.setColumn column cells).rows.map read = (t.rows.zip cells).map f := by
  rw [setColumn_eq, List.map_zipWith, ← List.map_uncurry_zip_eq_zipWith]
  apply List.map_congr_left
  rintro ⟨row, cell⟩ hmem
  exact hread row cell (h row (List.of_mem_zip hmem).1)

/-- The column that was set holds the new cells. -/
theorem column?_setColumn_self (h : t.Rectangular) (hlength : cells.length = t.rows.length)
    (column : String) : (t.setColumn column cells).column? column = some cells := by
  obtain ⟨place, hplace, hcell⟩ := exists_findIdx?_namesWith t.columns column
  have hplace' : (t.setColumn column cells).place? column = some place := by
    rw [setColumn_eq]
    exact hplace
  rw [column?, hplace', Option.map_some, map_rows_setColumn (f := Prod.snd) h hcell]
  exact congrArg some (List.map_snd_zip (Nat.le_of_eq hlength))

/-- Whatever stands at the place of another column stays. -/
theorem map_cellAt_setColumn_of_ne {place : Nat} (h : t.Rectangular)
    (hlength : cells.length = t.rows.length) (hplace : t.columns[place]? = some other)
    (hne : other ≠ column) :
    (t.setColumn column cells).rows.map (cellAt · place) = t.rows.map (cellAt · place) := by
  rw [map_rows_setColumn (f := fun entry => cellAt entry.1 place) h
    fun row cell hrow => cellAt_rowWith_of_ne hplace hne hrow cell]
  calc (t.rows.zip cells).map (fun entry => cellAt entry.1 place)
      = ((t.rows.zip cells).map Prod.fst).map (cellAt · place) := by
        rw [List.map_map]
        rfl
    _ = t.rows.map (cellAt · place) := by rw [List.map_fst_zip (Nat.le_of_eq hlength.symm)]

/-- Another column stays. -/
theorem column?_setColumn_of_ne (h : t.Rectangular) (hlength : cells.length = t.rows.length)
    (hne : other ≠ column) : (t.setColumn column cells).column? other = t.column? other := by
  have hplace : (t.setColumn column cells).place? other = t.place? other := by
    rw [setColumn_eq]
    exact findIdx?_namesWith_of_ne hne t.columns
  rw [column?, column?, hplace]
  cases hfound : t.place? other with
  | none => rfl
  | some place =>
    exact congrArg some
      (map_cellAt_setColumn_of_ne h hlength (getElem?_of_findIdx?_eq_some hfound) hne)

end DeskCalculator.Table
