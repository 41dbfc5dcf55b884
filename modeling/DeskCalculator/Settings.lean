import DeskCalculator.Display

/-!
# Settings

Everything about the calculator that can be set, and the conditions on it. The conditions are checked on
request only: a calculator with unsound settings still works as far as it can.
-/

namespace DeskCalculator

/-- What the calculator is set up with. -/
structure Settings where
  arithmetic : Arithmetic
  defaultMode : AngleMode.Choice
  /-- How many compiled programs an evaluator keeps. -/
  cacheSize : Int
  display : Display
  /-- How many results a session remembers. -/
  historyLimit : Int
  /-- The column of a batch table that holds the expressions. -/
  expressionColumn : String
  /-- The column of a batch table that may name an angle mode for its row. -/
  modeColumn : String
  outputPath : String
  logLevel : String

namespace Settings

/-- The settings out of the box. -/
def standard : Settings where
  arithmetic := .ieee
  defaultMode := .name "deg"
  cacheSize := 256
  display := .standard
  historyLimit := 60
  expressionColumn := "expression"
  modeColumn := "angle_mode"
  outputPath := "results.csv"
  logLevel := "INFO"

/-- The conditions on settings, in the order in which they are checked. -/
inductive Flaw where
  | angleMode
  | cacheSize
  | exponentRange
  | exponentDigits
  | fixedDigits
  | historyLimit
  deriving DecidableEq, Repr

/-- The wording of a flaw. -/
def Flaw.message : Flaw → String
  | angleMode => "角度模式只能是 deg 或 rad"
  | cacheSize => "缓存大小必须为正"
  | exponentRange => "指数阈值顺序错误"
  | exponentDigits => "指数形式小数位数必须为正"
  | fixedDigits => "小数位数必须为正"
  | historyLimit => "历史记录上限必须为正"

/-- The first condition that the settings do not meet. -/
def flaw? (s : Settings) : Option Flaw :=
  if s.defaultMode ≠ .name "deg" ∧ s.defaultMode ≠ .name "rad" then some .angleMode
  else if s.cacheSize ≤ 0 then some .cacheSize
  else if ¬ (0 < s.display.exponentLower ∧ s.display.exponentLower < s.display.exponentUpper) then
    some .exponentRange
  else if s.display.exponentDigits ≤ 0 then some .exponentDigits
  else if s.display.fixedDigits ≤ 0 then some .fixedDigits
  else if s.historyLimit ≤ 0 then some .historyLimit
  else none

end Settings

end DeskCalculator
