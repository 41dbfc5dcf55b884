import DeskCalculator.Proofs.StackMachine

/-!
# What the height of the stack decides

Whether an instruction can be carried out depends on the height of the stack alone, with one exception: a
factorial refuses a negative argument. `Program.firstFault?` runs a program on heights. It makes the same
checks as the machine in the same order, but knows no values.

`Program.outcome_of_firstFault?` says that a run ends in the fault that the heights show, or in a value if
they show none, unless a factorial refuses its argument before. Programs that differ in the values of their
numbers only, and runs in different modes, show the same faults.
-/

namespace DeskCalculator

namespace Instruction

/-- The height of the stack after the instruction, or what is wrong with carrying it out. -/
def heightAfter (height : Nat) : Instruction → Except EvalError Nat
  | push text none => .error (.malformedNumber text)
  | push _ (some _) => .ok (height + 1)
  | binary symbol =>
    match height with
    | below + 2 =>
      if (BinaryOp.ofSymbol? symbol).isSome then .ok (below + 1)
      else .error (.unknownOperator symbol)
    | _ => .error (.insufficientOperands symbol)
  | unclosed => .error .unclosedParen
  | call name =>
    match height with
    | below + 1 =>
      if (Function.ofName? name).isSome then .ok (below + 1) else .error (.unknownFunction name)
    | 0 => .error (.missingArgument name)
  | foreign kind symbol => .error (.unknownInstruction kind symbol)

/-- The instruction without the value of its number, if it has one. -/
def shape : Instruction → Instruction
  | push _ (some _) => push "" (some 0)
  | i => i

/-- The value of a number does not matter for the height of the stack. -/
theorem heightAfter_shape (height : Nat) (i : Instruction) :
    i.shape.heightAfter height = i.heightAfter height := by
  unfold shape
  split <;> rfl

end Instruction

/-- The factorial has one name. -/
theorem Function.eq_of_ofName?_eq_fact {name : String} (h : ofName? name = some fact) :
    name = "fact" := by
  unfold ofName? at h
  split at h <;> simp_all

/-- Both outcomes are values, or they are the same failure, or one is the failure of a factorial. -/
def Outcome.AgreeUpToValues : Outcome → Outcome → Prop
  | .ok _, .ok _ => True
  | .error e, .error f => e = f ∨ e.kind = .invalidFactorial ∨ f.kind = .invalidFactorial
  | .error e, .ok _ | .ok _, .error e => e.kind = .invalidFactorial

namespace Program

/-- The first fault of a program that starts at the given height, and how many instructions precede it.
The last fault is an end at another height than one. -/
def firstFault? (height : Nat) : Program → Option (Nat × EvalError)
  | [] => if height = 1 then none else some (0, .leftover height)
  | i :: p =>
    match i.heightAfter height with
    | .error e => some (0, e)
    | .ok next => (firstFault? next p).map fun (k, e) => (k + 1, e)

/-- Programs of the same shape have the same faults. -/
theorem firstFault?_congr {p q : Program} (h : p.map Instruction.shape = q.map Instruction.shape)
    (height : Nat) : firstFault? height p = firstFault? height q := by
  induction p generalizing q height with
  | nil =>
    obtain rfl : q = [] := by simpa using h.symm
    rfl
  | cons i p ih =>
    cases q with
    | nil => simp at h
    | cons j q =>
      obtain ⟨hshape, h⟩ := List.cons.inj h
      have hnext : i.heightAfter height = j.heightAfter height := by
        rw [← i.heightAfter_shape, ← j.heightAfter_shape, hshape]
      simp only [firstFault?, hnext, ih h]

variable {a : Arithmetic} {mode : AngleMode}

/-! ## One instruction -/

/-- An instruction that does not fit the height of the stack fails for that, whatever the values are. -/
theorem exec_of_heightAfter_eq_error {stack : List Float} {i : Instruction} {e : EvalError}
    (h : i.heightAfter stack.length = .error e) : exec a mode stack i = .error e := by
  cases i with
  | push text value =>
    cases value with
    | none => simpa [Instruction.heightAfter, exec] using h
    | some x => simp [Instruction.heightAfter] at h
  | binary symbol =>
    rcases stack with _ | ⟨y, _ | ⟨x, rest⟩⟩
    · simpa [Instruction.heightAfter, exec] using h
    · simpa [Instruction.heightAfter, exec] using h
    · cases hop : BinaryOp.ofSymbol? symbol with
      | none => simpa [Instruction.heightAfter, exec, hop] using h
      | some op => simp [Instruction.heightAfter, hop] at h
  | call name =>
    cases stack with
    | nil => simpa [Instruction.heightAfter, exec] using h
    | cons x rest =>
      cases hf : Function.ofName? name with
      | none => simpa [Instruction.heightAfter, exec, hf] using h
      | some f => simp [Instruction.heightAfter, hf] at h
  | unclosed => simpa [Instruction.heightAfter, exec] using h
  | foreign kind symbol => simpa [Instruction.heightAfter, exec] using h

/-- An instruction that the height admits is carried out, unless it is a factorial that refuses its
argument. -/
theorem exec_of_heightAfter_eq_ok {stack : List Float} {i : Instruction} {next : Nat}
    (h : i.heightAfter stack.length = .ok next) :
    (∃ out, exec a mode stack i = .ok out ∧ out.length = next) ∨
      ∃ x rest, i = .call "fact" ∧ stack = x :: rest ∧ a.fact x = none := by
  cases i with
  | push text value =>
    cases value with
    | none => simp [Instruction.heightAfter] at h
    | some x => exact .inl ⟨x :: stack, rfl, by simpa [Instruction.heightAfter] using h⟩
  | binary symbol =>
    rcases stack with _ | ⟨y, _ | ⟨x, rest⟩⟩
    · simp [Instruction.heightAfter] at h
    · simp [Instruction.heightAfter] at h
    · cases hop : BinaryOp.ofSymbol? symbol with
      | none => simp [Instruction.heightAfter, hop] at h
      | some op =>
        refine .inl ⟨a.binary op x y :: rest, by simp [exec, hop], ?_⟩
        simpa [Instruction.heightAfter, hop] using h
  | call name =>
    cases stack with
    | nil => simp [Instruction.heightAfter] at h
    | cons x rest =>
      cases hf : Function.ofName? name with
      | none => simp [Instruction.heightAfter, hf] at h
      | some f =>
        cases hx : a.apply mode x f with
        | some y =>
          refine .inl ⟨y :: rest, by simp [exec, hf, hx], ?_⟩
          simpa [Instruction.heightAfter, hf] using h
        | none =>
          -- only the factorial refuses an argument
          obtain rfl : f = .fact := by cases f <;> simp_all [Arithmetic.apply]
          exact .inr ⟨x, rest, by rw [Function.eq_of_ofName?_eq_fact hf], rfl, hx⟩
  | unclosed => simp [Instruction.heightAfter] at h
  | foreign kind symbol => simp [Instruction.heightAfter] at h

/-! ## Runs -/

variable (a mode) in
/-- After `k` instructions the machine comes to a factorial of `x`, which is refused. -/
def RefusedAt (stack : List Float) (p : Program) (k : Nat) (x : Float) : Prop :=
  p[k]? = some (.call "fact") ∧ a.fact x = none ∧
    ∃ rest, execAll a mode stack (p.take k) = .ok (x :: rest)

/-- If the first instruction goes well, the refused factorial comes one instruction later. -/
theorem RefusedAt.cons {stack next : List Float} {i : Instruction} {p : Program} {k : Nat} {x : Float}
    (hi : exec a mode stack i = .ok next) (h : RefusedAt a mode next p k x) :
    RefusedAt a mode stack (i :: p) (k + 1) x := by
  obtain ⟨hfact, hx, rest, hrun⟩ := h
  refine ⟨hfact, hx, rest, ?_⟩
  rw [List.take_succ_cons, execAll, hi]
  exact hrun

/-- A run up to a refused factorial fails with its argument. -/
theorem RefusedAt.execAll_eq {stack : List Float} {p : Program} {k : Nat} {x : Float}
    (h : RefusedAt a mode stack p k x) : execAll a mode stack p = .error (.negativeFactorial x) := by
  obtain ⟨hfact, hx, rest, hrun⟩ := h
  obtain ⟨hk, hget⟩ := List.getElem?_eq_some_iff.1 hfact
  have hsplit : p = p.take k ++ .call "fact" :: p.drop (k + 1) := by
    rw [← hget, ← List.drop_eq_getElem_cons hk, List.take_append_drop]
  have hname : Function.ofName? "fact" = some .fact := rfl
  rw [hsplit, execAll_append, hrun]
  show execAll a mode (x :: rest) (.call "fact" :: p.drop (k + 1)) = _
  simp [execAll, exec, hname, Arithmetic.apply, hx]

/-- What a run from a stack comes to. -/
def outcomeFrom (a : Arithmetic) (mode : AngleMode) (stack : List Float) (p : Program) : Outcome :=
  (execAll a mode stack p).bind result

/-- The outcome is the fault, or a value if there is none. -/
def Shows (outcome : Outcome) : Option (Nat × EvalError) → Prop
  | some (_, e) => outcome = .error e
  | none => ∃ x, outcome = .ok x

/-- A run ends as the heights show, unless a factorial before the fault refuses its argument. -/
theorem outcome_of_firstFault? (p : Program) (stack : List Float) :
    Shows (outcomeFrom a mode stack p) (firstFault? stack.length p) ∨
      ∃ j x, RefusedAt a mode stack p j x ∧ ∀ k e, firstFault? stack.length p = some (k, e) → j < k := by
  induction p generalizing stack with
  | nil =>
    left
    match stack with
    | [] => rfl
    | [x] => exact ⟨x, rfl⟩
    | x :: y :: rest => simp [firstFault?, Shows, outcomeFrom, execAll, Except.bind, result]
  | cons i p ih =>
    rw [firstFault?]
    cases hi : i.heightAfter stack.length with
    | error e =>
      left
      simp [Shows, outcomeFrom, execAll, exec_of_heightAfter_eq_error hi, Except.bind]
    | ok next =>
      have hstep : (∃ out, exec a mode stack i = .ok out ∧ out.length = next) ∨
          ∃ x rest, i = .call "fact" ∧ stack = x :: rest ∧ a.fact x = none :=
        exec_of_heightAfter_eq_ok hi
      rcases hstep with ⟨out, hexec, rfl⟩ | ⟨x, rest, rfl, rfl, hx⟩
      · have hrun : outcomeFrom a mode stack (i :: p) = outcomeFrom a mode out p := by
          simp [outcomeFrom, execAll, hexec]
        rcases ih out with hshows | ⟨j, x, hrefused, hbefore⟩
        · left
          rw [hrun]
          cases hfault : firstFault? out.length p with
          | none => simpa [hfault] using hshows
          | some fault => simpa [hfault, Shows] using hshows
        · refine .inr ⟨j + 1, x, hrefused.cons hexec, fun k e h => ?_⟩
          obtain ⟨⟨m, f⟩, hfault, heq⟩ := Option.map_eq_some_iff.1 h
          obtain ⟨rfl, -⟩ := Prod.mk.inj heq
          exact Nat.succ_lt_succ (hbefore m f hfault)
      · refine .inr ⟨0, x, ⟨rfl, hx, rest, rfl⟩, fun k e h => ?_⟩
        obtain ⟨⟨m, f⟩, -, heq⟩ := Option.map_eq_some_iff.1 h
        obtain ⟨rfl, -⟩ := Prod.mk.inj heq
        exact Nat.succ_pos m

/-- The outcome of a program is that of a run from the empty stack. -/
theorem run_eq_outcomeFrom (p : Program) : run a mode p = outcomeFrom a mode [] p := by
  rw [run, outcomeFrom]
  cases execAll a mode [] p <;> rfl

/-- A program ends as the heights show, unless a factorial before the fault refuses its argument. -/
theorem run_shows_or_refused (a : Arithmetic) (mode : AngleMode) (p : Program) :
    Shows (run a mode p) (firstFault? 0 p) ∨
      ∃ j x, (RefusedAt a mode [] p j x ∧ run a mode p = .error (.negativeFactorial x)) ∧
        ∀ k e, firstFault? 0 p = some (k, e) → j < k := by
  rw [run_eq_outcomeFrom]
  refine (outcome_of_firstFault? p []).imp_right ?_
  rintro ⟨j, x, hrefused, hbefore⟩
  refine ⟨j, x, ⟨hrefused, ?_⟩, hbefore⟩
  rw [outcomeFrom, hrefused.execAll_eq]
  rfl

/-- Programs in which the heights show the same have outcomes that differ in their values at most, unless
a factorial refuses its argument. -/
theorem agreeUpToValues_of_firstFault? {b : Arithmetic} {other : AngleMode} {p q : Program}
    (h : firstFault? 0 p = firstFault? 0 q) :
    (run a mode p).AgreeUpToValues (run b other q) := by
  rcases run_shows_or_refused a mode p with hp | ⟨j, x, ⟨-, hp⟩, -⟩
  · rcases run_shows_or_refused b other q with hq | ⟨k, y, ⟨-, hq⟩, -⟩
    · rw [h] at hp
      cases hfault : firstFault? 0 q with
      | none =>
        rw [hfault] at hp hq
        obtain ⟨x, hx⟩ := hp
        obtain ⟨y, hy⟩ := hq
        simp [hx, hy, Outcome.AgreeUpToValues]
      | some fault =>
        have hx : run a mode p = .error fault.2 := by simpa [hfault, Shows] using hp
        have hy : run b other q = .error fault.2 := by simpa [hfault, Shows] using hq
        simp [hx, hy, Outcome.AgreeUpToValues]
    · rw [hq]
      cases run a mode p <;> simp [Outcome.AgreeUpToValues, EvalError.kind]
  · rw [hp]
    cases run b other q <;> simp [Outcome.AgreeUpToValues, EvalError.kind]

/-- If the heights show a fault, a run ends in it, or before it in the failure of a factorial; if they show
none, it ends in a value or in such a failure. So neither the values of the numbers nor the mode, nor even
the operations, decide more than values and the failures of factorials. -/
theorem run_of_firstFault? (a : Arithmetic) (mode : AngleMode) (p : Program) :
    (∀ k e, firstFault? 0 p = some (k, e) → run a mode p = .error e ∨
      ∃ j < k, ∃ x, RefusedAt a mode [] p j x ∧ run a mode p = .error (.negativeFactorial x)) ∧
    (firstFault? 0 p = none → (∃ x, run a mode p = .ok x) ∨
      ∃ j x, RefusedAt a mode [] p j x ∧ run a mode p = .error (.negativeFactorial x)) ∧
    ∀ (b : Arithmetic) (other : AngleMode) (q : Program),
      p.map Instruction.shape = q.map Instruction.shape →
        (run a mode p).AgreeUpToValues (run b other q) := by
  refine ⟨fun k e h => ?_, fun h => ?_, fun b other q h => ?_⟩
  · rcases run_shows_or_refused a mode p with hshows | ⟨j, x, hrefused, hbefore⟩
    · rw [h] at hshows
      exact .inl hshows
    · exact .inr ⟨j, hbefore k e h, x, hrefused⟩
  · rcases run_shows_or_refused a mode p with hshows | ⟨j, x, hrefused, -⟩
    · rw [h] at hshows
      exact .inl hshows
    · exact .inr ⟨j, x, hrefused⟩
  · exact agreeUpToValues_of_firstFault? (firstFault?_congr h 0)

/-- The factorial of the number and an operator without a second operand. -/
def factorialThenSum (x : Float) : Program :=
  [.push "3" (some x), .call "fact", .binary "+"]

/-- The operator is at fault, but the factorial of a negative number fails before it; without the operator
there is no fault. -/
theorem run_factorialThenSum :
    firstFault? 0 (factorialThenSum (-3)) = some (2, .insufficientOperands "+") ∧
      (run .ieee .degrees (factorialThenSum (-3)) = .error (.insufficientOperands "+") ∨
        ∃ j < 2, ∃ x, RefusedAt .ieee .degrees [] (factorialThenSum (-3)) j x ∧
          run .ieee .degrees (factorialThenSum (-3)) = .error (.negativeFactorial x)) ∧
      firstFault? 0 [.push "4" (some 4), .call "fact"] = none ∧
      ((∃ x, run .ieee .radians [.push "4" (some 4), .call "fact"] = .ok x) ∨
        ∃ j x, RefusedAt .ieee .radians [] [.push "4" (some 4), .call "fact"] j x ∧
          run .ieee .radians [.push "4" (some 4), .call "fact"] = .error (.negativeFactorial x)) ∧
      (factorialThenSum (-3)).map Instruction.shape = (factorialThenSum 3).map Instruction.shape ∧
      (run .ieee .degrees (factorialThenSum (-3))).AgreeUpToValues
        (run .ieee .radians (factorialThenSum 3)) := by
  have hfault : firstFault? 0 (factorialThenSum (-3)) = some (2, .insufficientOperands "+") := by
    decide +kernel
  have hnone : firstFault? 0 [.push "4" (some 4), .call "fact"] = none := by decide +kernel
  obtain ⟨hsome, -, hshape⟩ := run_of_firstFault? .ieee .degrees (factorialThenSum (-3))
  obtain ⟨-, hsound, -⟩ :=
    run_of_firstFault? .ieee .radians [.push "4" (some 4), .call "fact"]
  exact ⟨hfault, hsome _ _ hfault, hnone, hsound hnone, rfl, hshape _ _ _ rfl⟩

end Program

end DeskCalculator
