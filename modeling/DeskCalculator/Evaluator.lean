import DeskCalculator.Expression
import DeskCalculator.RecencyCache
import DeskCalculator.Settings

/-!
# Evaluators

An evaluator has an angle mode of its own and keeps the programs it compiled. What it keeps are programs,
not values, so a program compiled for one mode serves the other as well. Blank expressions are answered
without a program.

The absent expression compiles like the empty one and is kept under a key of its own.
-/

namespace DeskCalculator

/-- An evaluator with its cache of programs. -/
structure Evaluator where
  mode : AngleMode
  cache : RecencyCache (Option String) Program

namespace Evaluator

/-- A new evaluator; what is not given comes from the settings. -/
def create (s : Settings) (cacheSize : Option Int) (mode : Option AngleMode.Choice) :
    Except Fault Evaluator :=
  match (mode.getD s.defaultMode).mode with
  | .ok mode => .ok ⟨mode, .empty (cacheSize.getD s.cacheSize)⟩
  | .error fault => .error fault

/-- The program of an expression, from the cache if it is there. -/
def compile (e : Evaluator) (text : Option String) : Except Fault Program × Evaluator :=
  match e.cache.fetch (fun text => Program.compile (text.getD "")) text with
  | (some program, cache) => (.ok program, { e with cache })
  | (none, cache) => (.error .emptyCache, { e with cache })

/-- The outcome of an expression in a mode. -/
def evaluateIn (a : Arithmetic) (e : Evaluator) (mode : AngleMode) (text : Option String) :
    Except Fault Outcome × Evaluator :=
  if Text.allBlank (text.getD "") then (.ok (.ok 0), e)
  else
    match e.compile text with
    | (.ok program, e) => (.ok (program.run a mode), e)
    | (.error fault, e) => (.error fault, e)

/-- The mode of one evaluation: the one that is asked for, or the evaluator's own. -/
def modeFor (e : Evaluator) (choice : Option AngleMode.Choice) : Except Fault AngleMode :=
  match choice with
  | some choice => choice.mode
  | none => .ok e.mode

/-- The outcome of an expression in the mode that is asked for. An unknown mode is refused before
anything else. -/
def evaluate (a : Arithmetic) (e : Evaluator) (choice : Option AngleMode.Choice)
    (text : Option String) : Except Fault Outcome × Evaluator :=
  match e.modeFor choice with
  | .ok mode => e.evaluateIn a mode text
  | .error fault => (.error fault, e)

/-- Forgets all programs and resets the counters. -/
def clear (e : Evaluator) : Evaluator :=
  { e with cache := e.cache.clear }

end Evaluator

end DeskCalculator
