import DeskCalculator.Proofs.Success

/-!
# Where operators stand in an expression with a value

An infix expression is well placed if every operator stands between two operands and no operand directly
follows another. Only the height of the stack is checked while a program runs, and the arrangement moves
operators behind what follows them, so a value alone does not make an expression well placed: `2 3+` is
worth five.

Operands that directly follow each other are the only way around it. `wellPlaced_iff_operandsApart` says
that an expression with a value is well placed as soon as its operands are apart.

The argument counts. Between operands that are apart, every number after the first one needs an operator
before it, so there is at most one number more than there are operators, and exactly one only if no place
for an operand was left empty (`count_le_and_alternates`). A value needs exactly one.
-/

namespace DeskCalculator

namespace Token

/-! ## Operands and operators side by side -/

/-- An operand ends with the token. -/
def endsOperand : Token → Bool
  | number _ _ | rightParen => true
  | _ => false

/-- An operand begins with the token. -/
def beginsOperand : Token → Bool
  | number _ _ | leftParen | identifier _ => true
  | _ => false

/-- No operand directly follows another. -/
def OperandsApart (ts : List Token) : Prop :=
  ts.IsChain fun t u => ¬ (t.endsOperand = true ∧ u.beginsOperand = true)

/-- Right before every operator an operand ends, and right after it an operand begins. -/
def OperatorsBetween (ts : List Token) : Prop :=
  ∀ before op after, ts = before ++ .operator op :: after →
    (∃ t ∈ before.getLast?, t.endsOperand = true) ∧ ∃ u ∈ after.head?, u.beginsOperand = true

/-- Operators stand between operands, and between operands stand operators. -/
def WellPlaced (ts : List Token) : Prop :=
  OperatorsBetween ts ∧ OperandsApart ts

/-- No place for an operand is empty: what begins no operand comes after one, and so does the end.
`afterOperand` says whether an operand ended right before the tokens. -/
def Alternates : Bool → List Token → Prop
  | afterOperand, [] => afterOperand = true
  | afterOperand, t :: ts =>
    (t.beginsOperand = true ∨ afterOperand = true) ∧ Alternates t.endsOperand ts

/-- If no place for an operand is empty in a list, none is in its end. -/
theorem Alternates.of_append {afterOperand : Bool} {before after : List Token}
    (h : Alternates afterOperand (before ++ after)) :
    Alternates ((before.getLast?.map endsOperand).getD afterOperand) after := by
  induction before generalizing afterOperand with
  | nil => exact h
  | cons t before ih =>
    have hrest := ih h.2
    cases before with
    | nil => exact hrest
    | cons u before =>
      rw [List.getLast?_cons_cons]
      rw [List.getLast?_cons, Option.map_some, Option.getD_some] at hrest ⊢
      exact hrest

/-- If no place for an operand is empty, operators stand between operands. -/
theorem Alternates.operatorsBetween {ts : List Token} (h : Alternates false ts) :
    OperatorsBetween ts := by
  rintro before op after rfl
  obtain ⟨hbefore, hafter⟩ := h.of_append
  constructor
  · cases hlast : before.getLast? with
    | none => simp [hlast, beginsOperand] at hbefore
    | some t => exact ⟨t, rfl, by simpa [hlast, beginsOperand] using hbefore⟩
  · cases after with
    | nil => exact absurd hafter (by simp [Alternates, endsOperand])
    | cons u after => exact ⟨u, rfl, by simpa [endsOperand] using hafter.1⟩

/-! ## Counting -/

/-- A token that follows no operand directly if it begins one: it counts at most as much as it changes what
stands before the next token, and less if a place for an operand is empty in front of it. -/
theorem count_le_and_alternates_one (t : Token) (afterOperand : Bool)
    (hfirst : afterOperand = true → t.beginsOperand = false) :
    [t].countP (·.kind = .number) + afterOperand.toNat ≤
        [t].countP (·.kind = .operator) + t.endsOperand.toNat ∧
      ([t].countP (·.kind = .number) + afterOperand.toNat =
        [t].countP (·.kind = .operator) + t.endsOperand.toNat →
          t.beginsOperand = true ∨ afterOperand = true) := by
  cases afterOperand with
  | false => cases t <;> simp [kind, beginsOperand, endsOperand]
  | true => cases t <;> simp [kind, beginsOperand, endsOperand] at hfirst ⊢

/-- Operands that are apart are at most one more than the operators, and one more only if no place for an
operand is empty. -/
theorem count_le_and_alternates {ts : List Token} (afterOperand : Bool) (h : OperandsApart ts)
    (hfirst : afterOperand = true → ∀ t ∈ ts.head?, t.beginsOperand = false) :
    ts.countP (·.kind = .number) + afterOperand.toNat ≤ ts.countP (·.kind = .operator) + 1 ∧
      (ts.countP (·.kind = .number) + afterOperand.toNat = ts.countP (·.kind = .operator) + 1 →
        Alternates afterOperand ts) := by
  induction ts generalizing afterOperand with
  | nil => cases afterOperand <;> simp [Alternates]
  | cons t ts ih =>
    obtain ⟨hnext, hrest⟩ := List.isChain_cons.1 h
    have hapart : t.endsOperand = true → ∀ u ∈ ts.head?, u.beginsOperand = false := by
      intro hends u hu
      simpa [hends] using hnext u hu
    obtain ⟨hle, halternates⟩ := ih t.endsOperand hrest hapart
    obtain ⟨hone, hplace⟩ := count_le_and_alternates_one t afterOperand fun hafter =>
      hfirst hafter t rfl
    rw [← List.singleton_append, List.countP_append, List.countP_append]
    -- the counts add up, and none of the two parts may fall short
    exact ⟨by omega, fun hcount => ⟨hplace (by omega), halternates (by omega)⟩⟩

end Token

/-! ## Expressions with a value -/

namespace Expression

open Token

variable {a : Arithmetic} {mode : AngleMode}

/-- An expression with a value is well placed exactly if no operand directly follows another. -/
theorem wellPlaced_iff_operandsApart {s : String} {x : Float} (hblank : Text.allBlank s = false)
    (h : evaluate a mode s = .ok x) :
    WellPlaced (tokenize s) ↔ OperandsApart (tokenize s) := by
  constructor
  · intro hplaced
    exact hplaced.2
  · intro hapart
    obtain ⟨-, halternates⟩ := count_le_and_alternates false hapart (by simp)
    have hcount := count_number_of_evaluate_eq_ok hblank h
    exact ⟨(halternates hcount).operatorsBetween, hapart⟩

/-- A negated call times a sum, well placed and with a value. -/
theorem wellPlaced_negated_call :
    Text.allBlank "-sqrt(9)*(2+5)" = false ∧ evaluate .ieee .radians "-sqrt(9)*(2+5)" = .ok (-21) ∧
      OperandsApart (tokenize "-sqrt(9)*(2+5)") ∧ WellPlaced (tokenize "-sqrt(9)*(2+5)") := by
  have hblank : Text.allBlank "-sqrt(9)*(2+5)" = false := by decide +kernel
  have hvalue : evaluate .ieee .radians "-sqrt(9)*(2+5)" = .ok (-21) := by decide +kernel
  have hapart : OperandsApart (tokenize "-sqrt(9)*(2+5)") := by
    unfold OperandsApart
    decide +kernel
  exact ⟨hblank, hvalue, hapart, (wellPlaced_iff_operandsApart hblank hvalue).2 hapart⟩

/-- Two numbers and then an operator have a value, although nothing follows the operator. -/
theorem postfix_has_value :
    Text.allBlank "2 3+" = false ∧ Text.Balanced "2 3+" ∧
      evaluate .ieee .degrees "2 3+" = .ok 5 ∧ ¬ WellPlaced (tokenize "2 3+") := by
  refine ⟨by decide +kernel, by decide +kernel, by decide +kernel, ?_⟩
  have htokens : tokenize "2 3+" = [ofLiteral "2", ofLiteral "3"] ++ .operator (.binary .add) :: [] := by
    decide +kernel
  rintro ⟨hbetween, -⟩
  obtain ⟨-, u, hu, -⟩ := hbetween _ _ _ htokens
  simp at hu

end Expression

end DeskCalculator
