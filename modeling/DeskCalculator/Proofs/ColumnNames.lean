import DeskCalculator.Table.Reader
import Mathlib

/-!
# The names of the columns

However often a header repeats a name or leaves one out, the columns of a table that was read have
different names, and none of them is empty (`nodup_columnNames`, `columnNames_of_closed`). A header with
different names that are not empty is taken as it is (`columnNames_eq_self`), so names that were settled
once are not changed again.

Names are settled place by place. `Settling` says where this stands: the places done, and those still to
be done.
-/

namespace DeskCalculator.Table

variable {names settled header : List String} {done places : List Nat} {place : Nat}

/-! ## Fresh names -/

/-- The names that are tried, one more than there are names. -/
def freshCandidates (names : List String) (name : String) : List String :=
  (List.range (names.length + 1)).map fun k => s!"{name}.{k + 1}"

/-- A fresh name is the first of the candidates that is not taken. -/
theorem freshName_eq (names : List String) (name : String) :
    freshName names name =
      ((freshCandidates names name).find? fun candidate => !names.contains candidate).getD name := rfl

/-- The candidates for a name differ from one another. -/
theorem nodup_freshCandidates (names : List String) (name : String) :
    (freshCandidates names name).Nodup := by
  refine List.nodup_range.map fun k l h => ?_
  have hlist := congrArg String.toList h
  simp only [String.toList_append, List.append_assoc, List.append_cancel_left_eq] at hlist
  have hdigits : k + 1 = l + 1 := Nat.repr_inj.1 (String.toList_inj.1 hlist)
  omega

/-- A fresh name is none of the names: they are too few to have all candidates among them. -/
theorem freshName_notMem (names : List String) (name : String) : freshName names name ∉ names := by
  rw [freshName_eq]
  cases hfind : (freshCandidates names name).find? fun candidate => !names.contains candidate with
  | some candidate =>
    have hfree := List.find?_some hfind
    simpa using hfree
  | none =>
    rw [List.find?_eq_none] at hfind
    have hsubset : freshCandidates names name ⊆ names := by
      intro candidate hcandidate
      simpa using hfind candidate hcandidate
    have hlength := (nodup_freshCandidates names name).length_le_of_subset hsubset
    rw [freshCandidates, List.length_map, List.length_range] at hlength
    omega

/-- What holds of a name and of every name with a number after it holds of a fresh one. -/
theorem freshName_of_closed {p : String → Prop} (hp : ∀ name k, p name → p s!"{name}.{k + 1}")
    (names : List String) {name : String} (h : p name) : p (freshName names name) := by
  rw [freshName_eq]
  cases hfind : (freshCandidates names name).find? fun candidate => !names.contains candidate with
  | none => exact h
  | some candidate =>
    obtain ⟨k, -, rfl⟩ := List.mem_map.1 (List.mem_of_find?_eq_some hfind)
    exact hp name k h

/-! ## Settling names -/

/-- The name at a place. -/
def nameAt (names : List String) (place : Nat) : String :=
  (names[place]?).getD ""

/-- The names at all places are the names. -/
theorem map_nameAt_range (names : List String) :
    (List.range names.length).map (nameAt names) = names := by
  apply List.ext_getElem?
  intro place
  by_cases hplace : place < names.length
  · simp [nameAt, hplace]
  · simp [hplace]

/-- A new name at a place changes nothing at the others. -/
theorem map_nameAt_set (name : String) (h : place ∉ done) :
    done.map (nameAt (names.set place name)) = done.map (nameAt names) := by
  apply List.map_congr_left
  intro other hother
  have hne : place ≠ other := by
    rintro rfl
    exact h hother
  rw [nameAt, nameAt, List.getElem?_set_ne hne]

/-- Each place is done or still to be done, and settled are the names at the places done. -/
structure Settling (names settled : List String) (done places : List Nat) : Prop where
  perm : (done ++ places).Perm (List.range names.length)
  settled_eq : settled = done.map (nameAt names)

/-- A place that is still to be settled is one of the header. -/
theorem Settling.lt_length (h : Settling names settled done (place :: places)) :
    place < names.length :=
  List.mem_range.1 (h.perm.mem_iff.1 (List.mem_append_right _ List.mem_cons_self))

/-- No place is settled twice. -/
theorem Settling.notMem_done (h : Settling names settled done (place :: places)) : place ∉ done := by
  have hnodup := h.perm.nodup_iff.2 List.nodup_range
  exact fun hmem => (List.disjoint_of_nodup_append hnodup) hmem List.mem_cons_self

/-- One place is done, with any name. -/
theorem Settling.step (h : Settling names settled done (place :: places)) (name : String) :
    Settling (names.set place name) (name :: settled) (place :: done) places where
  perm := by
    rw [List.length_set]
    exact (List.perm_middle.symm.trans h.perm)
  settled_eq := by
    rw [List.map_cons, map_nameAt_set name h.notMem_done, ← h.settled_eq, nameAt,
      List.getElem?_set_self h.lt_length, Option.getD_some]

/-- What is settled are names. -/
theorem Settling.subset (h : Settling names settled done places) : settled ⊆ names := by
  rw [h.settled_eq]
  intro name hname
  obtain ⟨place, hplace, rfl⟩ := List.mem_map.1 hname
  have hlt : place < names.length :=
    List.mem_range.1 (h.perm.mem_iff.1 (List.mem_append_left _ hplace))
  rw [nameAt, List.getElem?_eq_getElem hlt, Option.getD_some]
  exact List.getElem_mem hlt

/-- One step of settling: the place keeps its name, or has a fresh one if the name is taken. -/
theorem settleNames_cons (names settled : List String) (place : Nat) (places : List Nat) :
    settleNames names settled (place :: places) =
      let name := if settled.contains (nameAt names place) then freshName names (nameAt names place)
        else nameAt names place
      settleNames (names.set place name) (name :: settled) places := rfl

/-- Settled names are different. -/
theorem Settling.nodup (h : Settling names settled done places) (hsettled : settled.Nodup) :
    (settleNames names settled places).Nodup := by
  induction places generalizing names settled done with
  | nil =>
    -- all places are done, so the names are the settled ones in another order
    have hperm := h.perm.map (nameAt names)
    rw [List.append_nil, ← h.settled_eq, map_nameAt_range] at hperm
    exact hperm.nodup_iff.1 hsettled
  | cons place places ih =>
    rw [settleNames_cons]
    refine ih (h.step _) (List.nodup_cons.2 ⟨?_, hsettled⟩)
    split
    next => exact fun hmem => freshName_notMem names _ (h.subset hmem)
    next hfree => simpa using hfree

/-- Names that are different already are settled as they are. -/
theorem Settling.settleNames_eq (h : Settling names settled done places) (hnames : names.Nodup) :
    settleNames names settled places = names := by
  induction places generalizing settled done with
  | nil => rfl
  | cons place places ih =>
    have hfree : ¬ settled.contains (nameAt names place) = true := by
      rw [List.contains_iff_mem, h.settled_eq]
      intro hmem
      have hnodup : ((done ++ place :: places).map (nameAt names)).Nodup := by
        rw [(h.perm.map (nameAt names)).nodup_iff, map_nameAt_range]
        exact hnames
      rw [List.map_append] at hnodup
      exact (List.disjoint_of_nodup_append hnodup) hmem (List.mem_map_of_mem List.mem_cons_self)
    have hsame : names.set place (nameAt names place) = names := by
      rw [nameAt, List.getElem?_eq_getElem h.lt_length, Option.getD_some, List.set_getElem_self]
    have hstep := h.step (nameAt names place)
    rw [hsame] at hstep
    simp only [settleNames_cons, if_neg hfree, hsame]
    exact ih hstep

/-- What holds of all names and is kept by numbering them holds of the settled names. -/
theorem settleNames_of_closed {p : String → Prop} (hp : ∀ name k, p name → p s!"{name}.{k + 1}")
    (h : Settling names settled done places) (hnames : ∀ name ∈ names, p name) :
    ∀ name ∈ settleNames names settled places, p name := by
  induction places generalizing names settled done with
  | nil => exact hnames
  | cons place places ih =>
    rw [settleNames_cons]
    refine ih (h.step _) ?_
    have hname : p (nameAt names place) := by
      rw [nameAt, List.getElem?_eq_getElem h.lt_length, Option.getD_some]
      exact hnames _ (List.getElem_mem _)
    intro name hmem
    rcases List.mem_or_eq_of_mem_set hmem with hmem | rfl
    · exact hnames name hmem
    · split
      · exact freshName_of_closed hp names hname
      · exact hname

/-! ## The names for a header -/

/-- The names before they are settled: a missing one is made from the place. -/
def givenNames (header : List String) : List String :=
  header.mapIdx fun place name => if name.isEmpty then s!"Unnamed: {place}" else name

/-- The places in the order in which their names are settled. -/
def settlingOrder (header : List String) : List Nat :=
  let isNamed (place : Nat) : Bool := !(nameAt header place).isEmpty
  let places := List.range header.length
  places.filter isNamed ++ places.filter fun place => !isNamed place

/-- The names of columns are the given ones, settled. -/
theorem columnNames_eq (header : List String) :
    columnNames header = settleNames (givenNames header) [] (settlingOrder header) := rfl

/-- Settling begins with no place settled. -/
theorem settling_givenNames (header : List String) :
    Settling (givenNames header) [] [] (settlingOrder header) where
  perm := by
    rw [givenNames, List.length_mapIdx]
    exact List.filter_append_perm _ _
  settled_eq := rfl

/-- No two columns have one name. -/
theorem nodup_columnNames (header : List String) : (columnNames header).Nodup :=
  (settling_givenNames header).nodup List.nodup_nil

/-- Different names are taken as they are. -/
theorem columnNames_eq_self (hnodup : header.Nodup) (hnamed : "" ∉ header) :
    columnNames header = header := by
  have hgiven : givenNames header = header := by
    apply List.ext_getElem (List.length_mapIdx ..)
    intro place hplace hplace'
    have hne : header[place] ≠ "" := fun h => hnamed (h ▸ List.getElem_mem hplace')
    simp [hne]
  have hsettling := settling_givenNames header
  rw [hgiven] at hsettling
  rw [columnNames_eq, hgiven]
  exact hsettling.settleNames_eq hnodup

/-- What holds of the names made from places, of the names in the header that are not empty, and with a
name of every name with a number after it, holds of all columns. -/
theorem columnNames_of_closed {p : String → Prop} (hp : ∀ name k, p name → p s!"{name}.{k + 1}")
    (hplace : ∀ place : Nat, p s!"Unnamed: {place}") (hheader : ∀ name ∈ header, name ≠ "" → p name) :
    ∀ name ∈ columnNames header, p name := by
  refine settleNames_of_closed hp (settling_givenNames header) ?_
  intro name hname
  obtain ⟨place, hlt, rfl⟩ := List.mem_mapIdx.1 hname
  split
  · exact hplace place
  next hne => exact hheader _ (List.getElem_mem hlt) (by simpa using hne)

end DeskCalculator.Table
