import DeskCalculator.Fault

/-!
# The history of results

The latest result comes first, and only so many are remembered as the limit allows. Positions count from
the latest one; negative positions count from the oldest one, which has position `-1`. Limits and positions
are machine words: numbers beyond that are refused before they are looked at.
-/

namespace DeskCalculator

/-- An expression and the text that showed its value. -/
structure HistoryEntry where
  equation : String
  result : String
  deriving DecidableEq, Repr

/-- The remembered results, latest first. -/
structure History where
  limit : Nat
  entries : List HistoryEntry
  length_le : entries.length ≤ limit

namespace History

/-- The history without entries. -/
def empty (limit : Nat) : History := ⟨limit, [], Nat.zero_le _⟩

/-- Whether a number is a machine word with a sign. -/
def isWord (n : Int) : Bool :=
  Int64.minValue.toInt ≤ n && n ≤ Int64.maxValue.toInt

/-- A history with the given limit, which may not be negative. -/
def create (limit : Int) : Except Fault History :=
  if !isWord limit then .error .hugeHistoryLimit
  else if limit < 0 then .error .negativeHistoryLimit
  else .ok (empty limit.toNat)

/-- Puts a result in front and forgets the oldest one over the limit. -/
def push (h : History) (entry : HistoryEntry) : History :=
  ⟨h.limit, (entry :: h.entries).take h.limit, by rw [List.length_take]; omega⟩

/-- Forgets all results. -/
def clear (h : History) : History := empty h.limit

/-- How many results are remembered. -/
def length (h : History) : Nat := h.entries.length

/-- The result at a position. -/
def get? (h : History) (position : Int) : Option HistoryEntry :=
  let place := if position < 0 then position + h.length else position
  if place < 0 then none else h.entries[place.toNat]?

/-- The result at a position, or why there is none. -/
def entryAt (h : History) (position : Int) : Except Fault HistoryEntry :=
  if !isWord position then .error .hugePosition
  else match h.get? position with
    | some entry => .ok entry
    | none => .error .noSuchEntry

/-- The newest entry comes first, and what is beyond the limit is gone. -/
@[simp] theorem entries_push (h : History) (entry : HistoryEntry) :
    (h.push entry).entries = (entry :: h.entries).take h.limit := rfl

@[simp] theorem limit_push (h : History) (entry : HistoryEntry) : (h.push entry).limit = h.limit := rfl

@[simp] theorem entries_clear (h : History) : h.clear.entries = [] := rfl

end History

end DeskCalculator
