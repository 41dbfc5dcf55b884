import DeskCalculator.Program.Run

/-!
# Programs that compute an operand

A program computes an outcome if it puts that value on top of any stack, or fails with that error on any
stack. Such programs compose like expressions do: two of them and an operator make a third.

A program that runs to a value computes it (`computes_of_run`), because an instruction never looks below
what it takes (`exec_append_of_ok`). Failures do not extend in this way: a missing operand may be found
on a larger stack.
-/

namespace DeskCalculator

/-- A binary operation on two outcomes; of two failures the left one is reported. -/
def Outcome.both (f : Float → Float → Float) (x y : Outcome) : Outcome := do
  return f (← x) (← y)

/-- A named function applied to an outcome: whether the name is known is asked after its argument. -/
def Outcome.call (a : Arithmetic) (mode : AngleMode) (name : String) : Outcome → Outcome
  | .error e => .error e
  | .ok x =>
    match Function.ofName? name with
    | none => .error (.unknownFunction name)
    | some f =>
      match a.apply mode x f with
      | none => .error (.negativeFactorial x)
      | some y => .ok y

namespace Program

variable {a : Arithmetic} {mode : AngleMode}

/-! ## Runs -/

/-- A program of one instruction does what the instruction does. -/
theorem execAll_singleton (stack : List Float) (i : Instruction) :
    execAll a mode stack [i] = exec a mode stack i := by
  rw [execAll]
  cases exec a mode stack i <;> rfl

/-- A run that starts with an error stays in it, and one that starts well goes on. -/
theorem execAll_append_bind (stack : List Float) (p q : Program) :
    execAll a mode stack (p ++ q) =
      (execAll a mode stack p).bind fun stack => execAll a mode stack q := by
  rw [execAll_append]
  cases execAll a mode stack p <;> rfl

/-- A program has a value exactly if its run leaves this value alone on the stack. -/
theorem run_eq_ok_iff {p : Program} {x : Float} :
    run a mode p = .ok x ↔ execAll a mode [] p = .ok [x] := by
  rw [run]
  cases h : execAll a mode [] p with
  | error e => simp
  | ok stack =>
    -- a stack of any other height than one is refused
    match stack with
    | [] => simp [result]
    | [y] => simp [result]
    | y :: z :: rest => simp [result]

/-! ## Computing an operand -/

variable (a mode) in
/-- The program puts the value of `x` on top of any stack, or fails with its error. -/
def Computes (p : Program) (x : Outcome) : Prop :=
  ∀ stack, execAll a mode stack p = x.map (· :: stack)

/-- What a program computes is its outcome. -/
theorem Computes.run_eq {p : Program} {x : Outcome} (h : Computes a mode p x) :
    run a mode p = x := by
  rw [run, h]
  cases x <;> rfl

/-- Pushing a number computes the number. -/
theorem computes_push (text : String) (x : Float) :
    Computes a mode [.push text (some x)] (.ok x) :=
  fun _ => rfl

/-- A malformed number computes its error. -/
theorem computes_malformed (text : String) :
    Computes a mode [.push text none] (.error (.malformedNumber text)) :=
  fun _ => rfl

/-- Two operands and an operator: the left operand is computed first. -/
theorem Computes.binary {p q : Program} {x y : Outcome} (hp : Computes a mode p x)
    (hq : Computes a mode q y) (op : BinaryOp) :
    Computes a mode (p ++ q ++ [.binary op.symbol]) (Outcome.both (a.binary op) x y) := by
  intro stack
  rw [List.append_assoc, execAll_append_bind, hp]
  cases x with
  | error e => rfl
  | ok x =>
    show execAll a mode (x :: stack) (q ++ [.binary op.symbol]) = _
    rw [execAll_append_bind, hq]
    cases y with
    | error e => rfl
    | ok y =>
      show execAll a mode (y :: x :: stack) [.binary op.symbol] = _
      rw [execAll_singleton, exec, BinaryOp.ofSymbol?_symbol]
      rfl

/-- An operand and the name of a function. -/
theorem Computes.call {p : Program} {x : Outcome} (hp : Computes a mode p x) (name : String) :
    Computes a mode (p ++ [.call name]) (Outcome.call a mode name x) := by
  intro stack
  rw [execAll_append_bind, hp]
  cases x with
  | error e => rfl
  | ok x =>
    show execAll a mode (x :: stack) [.call name] = _
    rw [execAll_singleton, exec, Outcome.call]
    cases Function.ofName? name with
    | none => rfl
    | some f => cases hx : a.apply mode x f <;> simp [hx, Except.map]

/-! ## What lies below the operands -/

/-- An instruction that succeeds does the same on a larger stack. -/
theorem exec_append_of_ok {stack out : List Float} {i : Instruction}
    (h : exec a mode stack i = .ok out) (below : List Float) :
    exec a mode (stack ++ below) i = .ok (out ++ below) := by
  cases i with
  | push text value =>
    cases value with
    | none => simp [exec] at h
    | some x =>
      obtain rfl : x :: stack = out := by simpa [exec] using h
      rfl
  | binary symbol =>
    -- with too few operands the instruction fails, so it has both in front of what lies below
    match stack with
    | [] | [_] => simp [exec] at h
    | y :: x :: rest =>
      simp only [exec] at h
      simp only [List.cons_append, exec]
      cases hop : BinaryOp.ofSymbol? symbol with
      | none => simp [hop] at h
      | some op =>
        obtain rfl : a.binary op x y :: rest = out := by simpa [hop] using h
        rfl
  | call name =>
    match stack with
    | [] => simp [exec] at h
    | x :: rest =>
      simp only [exec] at h
      simp only [List.cons_append, exec]
      cases hf : Function.ofName? name with
      | none => simp [hf] at h
      | some f =>
        cases hx : a.apply mode x f with
        | none => simp [hf, hx] at h
        | some y =>
          obtain rfl : y :: rest = out := by simpa [hf, hx] using h
          simp [hx]
  | unclosed => simp [exec] at h
  | foreign kind symbol => simp [exec] at h

/-- A run that succeeds does the same on a larger stack. -/
theorem execAll_append_of_ok {stack out : List Float} {p : Program}
    (h : execAll a mode stack p = .ok out) (below : List Float) :
    execAll a mode (stack ++ below) p = .ok (out ++ below) := by
  induction p generalizing stack with
  | nil =>
    obtain rfl : stack = out := by simpa [execAll] using h
    rfl
  | cons i p ih =>
    rw [execAll] at h ⊢
    cases hi : exec a mode stack i with
    | error e => simp [hi] at h
    | ok next =>
      rw [hi] at h
      rw [exec_append_of_ok hi below]
      exact ih h

/-- A program with a value computes it wherever it stands. -/
theorem computes_of_run {p : Program} {x : Float} (h : run a mode p = .ok x) :
    Computes a mode p (.ok x) := by
  intro stack
  exact execAll_append_of_ok (run_eq_ok_iff.1 h) stack

/-- A program with a mark of an unclosed parenthesis has no value. -/
theorem run_ne_ok_of_unclosed {p : Program} (h : .unclosed ∈ p) (x : Float) :
    run a mode p ≠ .ok x := by
  intro hrun
  obtain ⟨before, after, rfl⟩ := List.append_of_mem h
  rw [run_eq_ok_iff, execAll_append_bind] at hrun
  cases hbefore : execAll a mode [] before with
  | error e => simp [hbefore, Except.bind] at hrun
  | ok stack => simp [hbefore, Except.bind, execAll, exec] at hrun

end Program

end DeskCalculator
