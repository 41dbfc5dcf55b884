import DeskCalculator.Program.Basic

/-!
# What waits while tokens are arranged

`Program.arrange` is read here as a run: `written` is what a token list has written before its end and
`waitingAfter` what it leaves behind. Both go on over an append, and the end writes what still waits.

The lemmas about one step say what an operator and a closing parenthesis release, and what they leave.
-/

namespace DeskCalculator.Program

@[simp] theorem flush_nil : flush [] = [] := rfl

/-- What waits on top is written first. -/
@[simp] theorem flush_cons (p : Pending) (waiting : List Pending) :
    flush (p :: waiting) = p.instruction :: flush waiting := rfl

/-- What waits is written part by part. -/
@[simp] theorem flush_append (left right : List Pending) :
    flush (left ++ right) = flush left ++ flush right :=
  List.map_append

/-! ## Runs -/

/-- What is written for two lists of tokens is written for the first and then for the second. -/
theorem written_append (waiting : List Pending) (xs ys : List Token) :
    written waiting (xs ++ ys) = written waiting xs ++ written (waitingAfter waiting xs) ys := by
  induction xs generalizing waiting with
  | nil => rfl
  | cons t xs ih => simp [written, waitingAfter, ih]

/-- What waits after two lists of tokens waits after the second, from what the first leaves. -/
theorem waitingAfter_append (waiting : List Pending) (xs ys : List Token) :
    waitingAfter waiting (xs ++ ys) = waitingAfter (waitingAfter waiting xs) ys := by
  induction xs generalizing waiting with
  | nil => rfl
  | cons t xs ih => simp [waitingAfter, ih]

/-- The program of a token list is what it writes and then what is left waiting. -/
theorem arrange_eq_written (waiting : List Pending) (ts : List Token) :
    arrange waiting ts = written waiting ts ++ flush (waitingAfter waiting ts) := by
  have h := arrange_append waiting ts []
  rwa [List.append_nil] at h

/-! ## Steps -/

/-- An operator releases what goes before it, up to the first that does not. -/
theorem step_operator {op : Operator} {left waiting : List Pending}
    (hleft : ∀ p ∈ left, p.goesBefore op = true)
    (hwaiting : ∀ p ∈ waiting.head?, p.goesBefore op = false) :
    step (left ++ waiting) (.operator op) = (flush left, .operator op :: waiting) := by
  have hstop : waiting.takeWhile (Pending.goesBefore op) = [] ∧
      waiting.dropWhile (Pending.goesBefore op) = waiting := by
    cases waiting with
    | nil => exact ⟨rfl, rfl⟩
    | cons p waiting =>
      have hp : p.goesBefore op = false := hwaiting p rfl
      simp [hp]
  rw [step, List.takeWhile_append_of_pos hleft, List.dropWhile_append_of_pos hleft, hstop.1,
    hstop.2, List.append_nil]

/-- A closing parenthesis releases what waits inside its group before it looks at what is behind. -/
theorem step_rightParen_append {left : List Pending} (hleft : ∀ p ∈ left, p.isInside = true)
    (waiting : List Pending) :
    step (left ++ waiting) .rightParen =
      (flush left ++ (step waiting .rightParen).1, (step waiting .rightParen).2) := by
  simp only [step, List.takeWhile_append_of_pos hleft, List.dropWhile_append_of_pos hleft,
    flush_append, List.append_assoc]

/-- A closing parenthesis releases what waits inside its group, and then what `close` adds. -/
theorem step_rightParen {left : List Pending} (hleft : ∀ p ∈ left, p.isInside = true)
    (waiting : List Pending) :
    step (left ++ .paren :: waiting) .rightParen =
      (flush left ++ (close (.paren :: waiting)).1, (close (.paren :: waiting)).2) := by
  rw [step_rightParen_append hleft]
  rfl

end DeskCalculator.Program
