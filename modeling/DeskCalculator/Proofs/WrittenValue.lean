import DeskCalculator.Proofs.InfixMeaning
import DeskCalculator.Proofs.Success
import DeskCalculator.Proofs.WrittenDecimal

/-!
# The value of written numbers

An expression that is nothing but a written number, perhaps behind a minus, is worth the double nearest to
it: `evaluate_sign_append`. An expression with an unknown name in it is worth nothing, wherever the name
stands, so no number written with an exponent can be read back: `exists_evaluate_exponential_eq_error`.
-/

namespace DeskCalculator.Expression

open Binary64

variable {a : Arithmetic} {mode : AngleMode}

/-! ## Numbers -/

/-- A text is worth what its derivation is worth. -/
theorem evaluate_of_lexemes_eq {s : String} {t : Infix .sum} (h : lexemes s = t.yield) :
    evaluate a mode s = t.value a mode := by
  rw [evaluate, Infix.not_allBlank_of_lexemes_eq h, if_neg Bool.false_ne_true, Program.compile,
    Infix.tokenize_of_lexemes_eq h, Infix.ofTokens_tokens]
  exact t.computes_postorder.run_eq

/-- An expression that writes a number has the double nearest to it as its value. -/
theorem evaluate_of_writes {s : List Char} {x : Rat} (h : Writes s x) :
    evaluate a mode (String.ofList s) = .ok (nearest false x) := by
  obtain ⟨l, hread, hvalue⟩ := h.exists_literal
  have hlexemes : lexemes (String.ofList s) =
      (Infix.ofProduct (.ofPower (.ofSigned (.ofPrimary (.number l))))).yield := by
    rw [lexemes, String.toList_ofList, hread]
    rfl
  rw [evaluate_of_lexemes_eq hlexemes]
  simp only [Infix.value, Infix.literalValue, hvalue]

/-- A minus in front of a number takes it from zero. -/
theorem evaluate_minus_of_writes {s : List Char} {x : Rat} (h : Writes s x) :
    evaluate a mode (String.ofList ('-' :: s)) = .ok (a.sub 0 (nearest false x)) := by
  obtain ⟨l, hread, hvalue⟩ := h.exists_literal
  have hlexemes : lexemes (String.ofList ('-' :: s)) =
      (Infix.ofProduct (.ofPower (.ofSigned (.neg (.ofPrimary (.number l)))))).yield := by
    rw [lexemes, String.toList_ofList,
      Lexeme.read_of_other (by decide) (by simp [Token.beginsNumber]), hread]
    rfl
  rw [evaluate_of_lexemes_eq hlexemes]
  simp only [Infix.value, Infix.literalValue, hvalue]
  rfl

/-- The text of a double's sign and of a number that rounds to its size is worth the double. -/
theorem evaluate_sign_append {v : Float} {negative : Bool} {m : Nat} {q : Int} {s : List Char} {x : Rat}
    (hv : ofFloat v = finite negative m q) (hs : Writes s x) (hx : rounded x = size m q)
    (hm : negative = true → m ≠ 0) :
    evaluate .ieee mode (String.ofList (Layout.sign negative ++ s)) = .ok v := by
  have hsize := ofFloat_nearest false hs.nonneg (canonical_of_finite hv) hx
  cases negative with
  | false =>
    rw [Layout.sign, if_neg Bool.false_ne_true, List.nil_append, evaluate_of_writes hs,
      eq_of_ofFloat_eq_finite hsize hv]
  | true =>
    have hsub : ofFloat (0 - nearest false x) = finite true m q := ofFloat_zero_sub hsize (hm rfl)
    rw [Layout.sign, if_pos rfl, List.singleton_append, evaluate_minus_of_writes hs]
    exact congrArg Except.ok (eq_of_ofFloat_eq_finite hsub hv)

/-! ## Unknown names -/

/-- An expression that contains an unknown name has no value. -/
theorem exists_evaluate_eq_error {s : String} {name : String}
    (hmem : .identifier name ∈ Token.tokenize s) (hname : Function.ofName? name = none)  :
    ∃ e, evaluate a mode s = .error e := by
  have hblank : Text.allBlank s = false := by
    refine not_allBlank_of_lexemes_ne_nil fun hnil => ?_
    rw [tokenize_eq, hnil] at hmem
    simp [Lexeme.tokenList] at hmem
  cases h : evaluate a mode s with
  | error e => exact ⟨e, rfl⟩
  | ok x =>
    -- in an expression with a value every name is known
    have hknown := (known_of_evaluate_eq_ok hblank h).1 _ hmem (.ofName name) rfl
    rw [Instruction.ofName] at hknown
    split at hknown
    · exact hknown.elim
    · rw [Instruction.Known, hname] at hknown
      cases hknown

/-- The `e` of an exponent is read as a name, whatever stands before and after it. -/
theorem identifier_mem_tokenize {pre post : List Char} (hpre : ∀ c ∈ pre, c.isAlpha = false)
    (hpost : ∀ c ∈ post.head?, c.isAlpha = false) :
    .identifier "e" ∈ Token.tokenize (String.ofList (pre ++ 'e' :: post)) := by
  have hcut : Lexeme.Separate pre ('e' :: post) := by
    intro c hc d hd
    obtain rfl : 'e' = d := by simpa using hd
    simp [hpre c (List.mem_of_getLast? hc), Token.isNumeric]
  have htake : post.takeWhile Char.isAlpha = [] := by
    cases post with
    | nil => rfl
    | cons c post => simp [hpost c (by simp)]
  have hread : Lexeme.read ('e' :: post) = .name ⟨"e", by simp, by simp, by simp⟩ ::
      Lexeme.read (post.dropWhile Char.isAlpha) := by
    rw [Lexeme.read_of_isAlpha (by decide) (by simp [Token.beginsNumber])]
    simp only [htake]
    rfl
  rw [tokenize_eq, lexemes, String.toList_ofList, Lexeme.read_append hcut, Lexeme.tokenList_append,
    hread]
  simp [Lexeme.tokenList, Lexeme.tokens]

/-- A number with an exponent has no value as an expression. -/
theorem exists_evaluate_exponential_eq_error (a : Arithmetic) (mode : AngleMode) (places : Nat)
    (negative : Bool) (m : Nat) (q : Int) :
    ∃ e, evaluate a mode (exponential places negative m q) = .error e := by
  simp only [exponential, Layout.exponentPart]
  generalize (if m = 0 then (⟨0, 0⟩ : Decimal) else .scientific (size m q) places) = d
  have hdigits : ∀ c ∈ if m = 0 then List.replicate (places + 1) '0' else d.digits,
      c.isDigit = true := by
    split
    · intro c hc
      rw [List.eq_of_mem_replicate hc]
      rfl
    · exact fun c => isDigit_of_mem_toDigits
  generalize (if m = 0 then List.replicate (places + 1) '0' else d.digits) = digits at hdigits ⊢
  have hdigits : ∀ c ∈ digits, c.isAlpha = false := fun c hc =>
    Literal.isAlpha_of_isNumeric (by simp [Token.isNumeric, hdigits c hc])
  refine exists_evaluate_eq_error (identifier_mem_tokenize ?_ ?_) (by decide)
  · simp only [List.mem_append, List.mem_cons]
    rintro c ((hc | hc) | rfl | hc)
    · have hsign : c = '-' := by cases negative <;> simp_all [Layout.sign]
      rw [hsign]
      decide
    · exact hdigits c (List.mem_of_mem_take hc)
    · decide
    · exact hdigits c (List.mem_of_mem_drop hc)
  · rintro c hc
    split at hc <;> simp at hc <;> subst hc <;> decide

/-- Infinities and NaN are shown by names, and these are unknown to the calculator. -/
theorem exists_evaluate_name_eq_error (a : Arithmetic) (mode : AngleMode) :
    (∃ e, evaluate a mode "Infinity" = .error e) ∧ ∃ e, evaluate a mode "NaN" = .error e := by
  have hinfinity : Token.tokenize "Infinity" = [.identifier "Infinity"] := by decide +kernel
  have hnan : Token.tokenize "NaN" = [.identifier "NaN"] := by decide +kernel
  exact ⟨exists_evaluate_eq_error (by rw [hinfinity]; exact List.mem_singleton_self _) (by decide),
    exists_evaluate_eq_error (by rw [hnan]; exact List.mem_singleton_self _) (by decide)⟩

end DeskCalculator.Expression
