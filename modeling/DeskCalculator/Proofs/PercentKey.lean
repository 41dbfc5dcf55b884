import DeskCalculator.Proofs.PercentTokens
import DeskCalculator.Session.Basic

/-!
# The percent key cuts once

What the percent key finds at the end of the line is the longest number there, whatever points and digits
stand before it, and it is found whenever some number ends the line. `Session.act_percent` says this of
the session: the number is replaced by its hundredth in parentheses, and where no number ends the line,
nothing is changed, not even a final line feed.

A line that has been cut ends in a parenthesis, and no number does. So the key has nothing more to do
(`Percent.apply_apply`), also where the number was too large for a double and its hundredth is written as
the name of infinity.
-/

namespace DeskCalculator

namespace Percent

variable {line : String} {number : List Char}

/-- If some number stands at the end of a text, then so does a longest one. -/
theorem exists_isTrailing {s text : List Char} (hs : IsNumber s) (h : s <:+ text) :
    ∃ number, IsTrailing number text := by
  have hne : trailingBackwards text.reverse ≠ [] := by
    intro hnil
    exact trailingBackwards_eq_nil_iff.1 hnil s hs h
  exact ⟨_, isTrailing_trailingBackwards hne⟩

/-- A number is replaced by the text of a hundredth of its value, in parentheses. -/
theorem IsNumber.exists_replacement_eq (h : IsNumber number) :
    ∃ n, Numeral.float? (String.ofList number) = some n ∧
      String.ofList (replacement number) = "(" ++ Layout.plain.text (n / 100) ++ ")" := by
  obtain ⟨d, hparse⟩ := h.exists_parse?
  refine ⟨Binary64.ofDecimal false d, ?_, ?_⟩
  · rw [Numeral.float?, String.toList_ofList, hparse]
    rfl
  · have hreplacement : replacement number =
        ['('] ++ (Layout.plain.text (Binary64.ofDecimal false d / 100)).toList ++ [')'] := by
      rw [replacement, hparse]
      rfl
    rw [hreplacement, String.ofList_append, String.ofList_append, String.ofList_toList]

/-- The longest number at the end of the line is replaced, and a final line feed goes with it. -/
theorem exists_apply_eq_append (h : IsTrailing number (withoutFinalNewline line.toList)) :
    ∃ before n, withoutFinalNewline line.toList = before ++ number ∧
      Numeral.float? (String.ofList number) = some n ∧
      apply line = String.ofList before ++ ("(" ++ Layout.plain.text (n / 100) ++ ")") := by
  obtain ⟨before, hline⟩ := h.suffix
  obtain ⟨n, hvalue, hreplacement⟩ := h.isNumber.exists_replacement_eq
  have hsplit : split? line.toList = some (before, number) := split?_eq_some_iff.2 ⟨hline.symm, h⟩
  refine ⟨before, n, hline.symm, hvalue, ?_⟩
  rw [apply, hsplit, ← hreplacement, ← String.ofList_append]

example : apply "2*٣.1.5٢\n" = "2*٣.(0.0152)" := by decide +kernel

/-- The key has nothing more to do on a line that it has made. -/
theorem apply_apply (line : String) : apply (apply line) = apply line := by
  cases hsplit : split? line.toList with
  | none =>
    have hsame : apply line = line := by rw [apply, hsplit]
    rw [hsame, hsame]
  | some cut =>
    obtain ⟨before, number⟩ := cut
    rw [apply_eq_self_iff]
    intro s hs hsuffix
    -- the line ends in a parenthesis, before which no line feed is passed over
    have hlast : (apply line).toList.getLast? = some ')' := by
      rw [toList_apply hsplit, replacement, ← List.append_assoc, List.getLast?_concat]
    rw [withoutFinalNewline, hlast, if_neg (by decide)] at hsuffix
    obtain ⟨pre, hpre⟩ := hsuffix
    rw [← hpre, List.getLast?_append_of_ne_nil _ hs.ne_nil] at hlast
    exact hs.getLast?_ne (by decide +kernel) (by decide) hlast

end Percent

namespace Session

open Percent

/-- The percent key replaces the longest number at the end of the line, less a final line feed, by its
hundredth in parentheses. A line that does not end in a number stays as it is, and the key pressed twice
does what it does once. -/
theorem act_percent (s : Settings) (session : Session) (e : Evaluator) :
    (∀ t, IsNumber t → t <:+ withoutFinalNewline session.line.toList →
      ∃ before number n, withoutFinalNewline session.line.toList = before ++ number ∧
        IsTrailing number (before ++ number) ∧ Numeral.float? (String.ofList number) = some n ∧
        session.act s e .percent = session.withLine e
          (String.ofList before ++ ("(" ++ Layout.plain.text (n / 100) ++ ")"))) ∧
    ((∀ t, IsNumber t → ¬ t <:+ withoutFinalNewline session.line.toList) →
      session.act s e .percent = session.withLine e session.line) ∧
    (session.act s e .percent).2.1.act s (session.act s e .percent).2.2 .percent =
      session.act s e .percent := by
  refine ⟨?_, ?_, ?_⟩
  · intro t ht hsuffix
    obtain ⟨number, htrailing⟩ := exists_isTrailing ht hsuffix
    obtain ⟨before, n, hline, hvalue, happly⟩ := exists_apply_eq_append htrailing
    exact ⟨before, number, n, hline, hline ▸ htrailing, hvalue, congrArg (session.withLine e) happly⟩
  · intro hnone
    exact congrArg (session.withLine e) ((apply_eq_self_iff session.line).2 hnone)
  · exact congrArg (session.withLine e) (apply_apply session.line)

/-- A session with the given line and nothing else in it. -/
def typed (line : String) : Session where
  line
  memory := 0
  mode := .degrees
  history := .empty 60
  draws := []

/-- Several points, digits of two scripts and a final line feed; and a line feed behind no number. -/
theorem act_percent_severalPoints :
    IsNumber ['5', '٢'] ∧ ['5', '٢'] <:+ withoutFinalNewline (typed "2*٣.1.5٢\n").line.toList ∧
      (∃ before number n, withoutFinalNewline (typed "2*٣.1.5٢\n").line.toList = before ++ number ∧
        IsTrailing number (before ++ number) ∧ Numeral.float? (String.ofList number) = some n ∧
        (typed "2*٣.1.5٢\n").act .standard ⟨.degrees, .empty 256⟩ .percent =
          (typed "2*٣.1.5٢\n").withLine ⟨.degrees, .empty 256⟩
            (String.ofList before ++ ("(" ++ Layout.plain.text (n / 100) ++ ")"))) ∧
      (∀ t, IsNumber t → ¬ t <:+ withoutFinalNewline (typed "2+\n").line.toList) ∧
      (typed "2+\n").act .standard ⟨.degrees, .empty 256⟩ .percent =
        (typed "2+\n").withLine ⟨.degrees, .empty 256⟩ "2+\n" := by
  have hnumber : IsNumber ['5', '٢'] := by
    refine ⟨['5', '٢'], [], by simp, ?_, .inr ⟨rfl, rfl⟩⟩
    have hdigits : Text.isDigit '5' = true ∧ Text.isDigit '٢' = true := by decide +kernel
    simpa using hdigits
  have hsuffix : ['5', '٢'] <:+ withoutFinalNewline (typed "2*٣.1.5٢\n").line.toList :=
    ⟨['2', '*', '٣', '.', '1', '.'], by decide +kernel⟩
  have hnone : ∀ t, IsNumber t → ¬ t <:+ withoutFinalNewline (typed "2+\n").line.toList :=
    split?_eq_none_iff.1 (by decide +kernel)
  exact ⟨hnumber, hsuffix,
    (act_percent .standard (typed "2*٣.1.5٢\n") ⟨.degrees, .empty 256⟩).1 _ hnumber hsuffix, hnone,
    (act_percent .standard (typed "2+\n") ⟨.degrees, .empty 256⟩).2.1 hnone⟩

end Session

end DeskCalculator
