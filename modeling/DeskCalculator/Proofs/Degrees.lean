import DeskCalculator.Proofs.Conservation
import DeskCalculator.Session.Basic

/-!
# What the angle mode changes

In degrees a program does what it does in radians, except that the arguments of `sin`, `cos` and `tan` are
multiplied by `π / 180` first. `Program.converted` writes these multiplications into the program, and
`Program.run_degrees_eq_run_converted` says that the outcome in degrees is the outcome of the converted
program in radians. The two runs hold the same stack after every instruction, so they also fail at the same
place, for the same reason.

The multiplication is a step of its own. Written as a push of the factor and the operator `*`, it would
complain about its missing operand where the function complains about its missing argument.
-/

namespace DeskCalculator

/-! ## Programs with multiplications in place -/

/-- What the machine does in a program with multiplications in place. -/
inductive MachineStep where
  /-- Multiply the last value, if there is one, by a constant. -/
  | scale (factor : Float)
  | plain (i : Instruction)

namespace MachineStep

/-- The stack after one step. -/
def exec (a : Arithmetic) (mode : AngleMode) (stack : List Float) :
    MachineStep → Except EvalError (List Float)
  | scale factor => .ok (stack.modifyHead fun x => a.mul x factor)
  | plain i => Program.exec a mode stack i

/-- The stack after a list of steps. -/
def execAll (a : Arithmetic) (mode : AngleMode) (stack : List Float) (steps : List MachineStep) :
    Except EvalError (List Float) :=
  steps.foldlM (exec a mode) stack

/-- The outcome of a list of steps on an empty stack. -/
def run (a : Arithmetic) (mode : AngleMode) (steps : List MachineStep) : Outcome :=
  match execAll a mode [] steps with
  | .ok stack => Program.result stack
  | .error e => .error e

end MachineStep

/-- Whether the instruction applies a function to an angle. -/
def Instruction.takesAngle : Instruction → Bool
  | call name => name ∈ ["sin", "cos", "tan"]
  | _ => false

/-- The instruction, with the angle it takes multiplied by a factor first. -/
def Instruction.converted (factor : Float) (i : Instruction) : List MachineStep :=
  if i.takesAngle then [.scale factor, .plain i] else [.plain i]

/-- The program, with every angle multiplied by a factor before a function is applied to it. -/
def Program.converted (factor : Float) (p : Program) : List MachineStep :=
  p.flatMap (Instruction.converted factor)

/-- Only the three functions of an angle depend on the mode. -/
theorem Function.mem_of_isTrigonometric {name : String} {f : Function} (h : ofName? name = some f)
    (hf : f.isTrigonometric = true) : name ∈ ["sin", "cos", "tan"] := by
  unfold ofName? at h
  split at h <;> cases h <;> simp_all [isTrigonometric]

namespace Program

variable {a : Arithmetic} {p : Program}

/-! ## One instruction -/

/-- In degrees such a function does what it does in radians to the converted argument. -/
theorem exec_degrees_of_takesAngle {i : Instruction} (h : i.takesAngle = true) (stack : List Float) :
    exec a .degrees stack i = exec a .radians (stack.modifyHead fun x => a.mul x a.degree) i := by
  cases i with
  | call name =>
    have hname : name = "sin" ∨ name = "cos" ∨ name = "tan" := by simpa [Instruction.takesAngle] using h
    rcases hname with rfl | rfl | rfl <;> cases stack <;> rfl
  | _ => simp [Instruction.takesAngle] at h

/-- An instruction that takes no angle does the same in every mode. -/
theorem exec_congr_mode {i : Instruction} (h : i.takesAngle = false) (m₁ m₂ : AngleMode)
    (stack : List Float) : exec a m₁ stack i = exec a m₂ stack i := by
  cases i with
  | push text value => cases value <;> rfl
  | binary symbol => rfl
  | call name =>
    cases stack with
    | nil => rfl
    | cons x rest =>
      cases hf : Function.ofName? name with
      | none => simp only [exec, hf]
      | some f =>
        have hnot : f.isTrigonometric = false := by
          refine Bool.eq_false_iff.2 fun htrig => ?_
          simp [Instruction.takesAngle, Function.mem_of_isTrigonometric hf htrig] at h
        simp only [exec, hf, a.apply_of_not_isTrigonometric m₁ m₂ x hnot]
  | unclosed => rfl
  | foreign kind symbol => rfl

/-- The block that replaces an instruction does in radians what the instruction does in degrees. -/
theorem execAll_converted_instruction (i : Instruction) (stack : List Float) :
    MachineStep.execAll a .radians stack (i.converted a.degree) = exec a .degrees stack i := by
  unfold Instruction.converted MachineStep.execAll
  cases h : i.takesAngle with
  | true =>
    rw [exec_degrees_of_takesAngle h]
    exact bind_pure (exec a .radians _ i)
  | false =>
    rw [exec_congr_mode h .degrees .radians]
    exact bind_pure (exec a .radians _ i)

/-! ## Runs -/

/-- From every stack the converted program comes in radians to where the program comes in degrees. -/
theorem execAll_converted (p : Program) (stack : List Float) :
    MachineStep.execAll a .radians stack (p.converted a.degree) = execAll a .degrees stack p := by
  induction p generalizing stack with
  | nil => rfl
  | cons i p ih =>
    have hfirst := execAll_converted_instruction (a := a) i stack
    rw [MachineStep.execAll] at hfirst
    rw [converted, List.flatMap_cons, MachineStep.execAll, List.foldlM_append, hfirst, execAll]
    cases exec a .degrees stack i with
    | ok next => exact ih next
    | error e => rfl

/-- The converted program has in radians the outcome that the program has in degrees. -/
theorem run_converted (a : Arithmetic) (p : Program) :
    MachineStep.run a .radians (p.converted a.degree) = run a .degrees p := by
  rw [MachineStep.run, execAll_converted]
  rfl

/-- A program that takes no angle does the same in both modes. -/
theorem execAll_congr_mode (h : ∀ i ∈ p, i.takesAngle = false) (m₁ m₂ : AngleMode)
    (stack : List Float) : execAll a m₁ stack p = execAll a m₂ stack p := by
  induction p generalizing stack with
  | nil => rfl
  | cons i p ih =>
    obtain ⟨hi, h⟩ := List.forall_mem_cons.1 h
    rw [execAll, execAll, exec_congr_mode hi m₁ m₂]
    cases exec a m₂ stack i with
    | ok next => exact ih h next
    | error e => rfl

/-! ## Expressions -/

/-- A call comes from an identifier among the tokens. -/
theorem identifier_mem_of_call_mem_ofTokens {ts : List Token} {name : String}
    (h : .call name ∈ ofTokens ts) : .identifier name ∈ ts := by
  rcases List.mem_append.1 ((perm_ofTokens ts).mem_iff.1 h) with htoken | hmark
  · obtain ⟨t, ht, heq⟩ := List.mem_filterMap.1 htoken
    cases t with
    | identifier n =>
      obtain rfl : n = name := by
        simp only [Token.instruction?, Instruction.ofName] at heq
        split at heq <;> simp_all
      exact ht
    | _ => simp [Token.instruction?] at heq
  · exact absurd (List.eq_of_mem_replicate hmark) nofun

/-- An expression without the names of trigonometric functions takes no angle. -/
theorem takesAngle_of_mem_compile {s : String}
    (h : ∀ name ∈ ["sin", "cos", "tan"], Token.identifier name ∉ Token.tokenize s) {i : Instruction}
    (hi : i ∈ compile s) : i.takesAngle = false := by
  refine Bool.eq_false_iff.2 fun hangle => ?_
  cases i with
  | call name =>
    have hname : name ∈ ["sin", "cos", "tan"] := by simpa [Instruction.takesAngle] using hangle
    exact h name hname (identifier_mem_of_call_mem_ofTokens hi)
  | _ => simp [Instruction.takesAngle] at hangle

/-- A program has in degrees the outcome, be it a value or a failure, that it has in radians once the
arguments of `sin`, `cos` and `tan` are multiplied by `π / 180`. An expression without these names has the
same outcome in both modes. -/
theorem run_degrees_eq_run_converted (a : Arithmetic) :
    (∀ p : Program, run a .degrees p = MachineStep.run a .radians (p.converted a.degree)) ∧
    (∀ x : Float, Arithmetic.ieee.mul x Arithmetic.ieee.degree = x * (Session.pi / 180)) ∧
    ∀ s : String, (∀ name ∈ ["sin", "cos", "tan"], Token.identifier name ∉ Token.tokenize s) →
      Expression.evaluate a .degrees s = Expression.evaluate a .radians s := by
  have hdegree : Arithmetic.ieee.degree = Session.pi / 180 := by decide +kernel
  refine ⟨fun p => (run_converted a p).symm, fun x => congrArg (x * ·) hdegree, fun s h => ?_⟩
  unfold Expression.evaluate
  rw [run, run, execAll_congr_mode (fun i => takesAngle_of_mem_compile h) .degrees .radians]

/-- A name may contain that of a trigonometric function: `asin` is another name. -/
theorem evaluate_asin :
    (∀ name ∈ ["sin", "cos", "tan"], Token.identifier name ∉ Token.tokenize "asin(30)") ∧
      Expression.evaluate .ieee .degrees "asin(30)" = Expression.evaluate .ieee .radians "asin(30)" := by
  have h : ∀ name ∈ ["sin", "cos", "tan"], Token.identifier name ∉ Token.tokenize "asin(30)" := by
    decide +kernel
  exact ⟨h, (run_degrees_eq_run_converted .ieee).2.2 _ h⟩

end Program

end DeskCalculator
