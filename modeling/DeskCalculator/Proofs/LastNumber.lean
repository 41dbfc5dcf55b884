import DeskCalculator.Proofs.WrittenDecimal

/-!
# The literal at the end of a text

A text that ends in digits and points, with at least one digit among them, ends in a literal. The literal
need not take the whole run: of several points in front of the first digit only the last one belongs to
it. `LastNumber` says how such a text is cut and what its lexemes are; `exists_lastNumber` finds the cut.
-/

namespace DeskCalculator

open Token (isNumeric)

namespace Lexeme

/-! ## Runs of digits and points -/

/-- A point that no digit follows is passed over. -/
theorem read_point {s : List Char} (h : ∀ c ∈ s.head?, c.isDigit = false) : read ('.' :: s) = read s := by
  have hbegins : Token.beginsNumber '.' s = false := by
    cases s with
    | nil => rfl
    | cons c s => simpa [Token.beginsNumber] using h c (by simp)
  rw [read_of_other (by decide) hbegins]
  rfl

/-- Points without a digit leave no lexeme. -/
theorem read_points {dots : List Char} (h : ∀ c ∈ dots, c = '.') : read dots = [] := by
  induction dots with
  | nil => exact read_nil
  | cons c dots ih =>
    obtain rfl := h c (by simp)
    have hrest : ∀ d ∈ dots, d = '.' := fun d hd => h d (by simp [hd])
    rw [read_point, ih hrest]
    intro d hd
    rw [hrest d (List.mem_of_mem_head? hd)]
    rfl

/-- A run with a digit in it is one literal, after points that do not belong to it. -/
theorem exists_read_run {run : List Char} (hrun : ∀ c ∈ run, isNumeric c = true)
    (hdigit : ∃ c ∈ run, c.isDigit = true) :
    ∃ (dots : List Char) (l : Literal), run = dots ++ l.text.toList ∧ (∀ c ∈ dots, c = '.') ∧
      (dots = [] ∨ l.text.toList.head? = some '.') ∧ read run = [number l] := by
  induction run with
  | nil => simp at hdigit
  | cons c rest ih =>
    have hrest : ∀ d ∈ rest, isNumeric d = true := fun d hd => hrun d (by simp [hd])
    by_cases hbegins : Token.beginsNumber c rest = true
    · refine ⟨[], .ofRun c rest hbegins, ?_, by simp, .inl rfl, ?_⟩
      · rw [Literal.text_ofRun, List.takeWhile_eq_self_iff.2 hrest, String.toList_ofList, List.nil_append]
      · rw [read_of_beginsNumber hbegins, List.dropWhile_eq_nil_iff.2 hrest, read_nil]
    · -- a point that is not followed by a digit, so another point follows
      have hc : c.isDigit = false := by
        by_contra hc
        simp [Token.beginsNumber, hc] at hbegins
      obtain rfl : c = '.' :=
        (Literal.isDigit_or_eq_point (hrun c (by simp))).resolve_left (by simp [hc])
      obtain ⟨dots, l, rfl, hdots, hpoint, hread⟩ := ih hrest (by simpa using hdigit)
      have hhead : ∀ d ∈ (dots ++ l.text.toList).head?, d.isDigit = false := by
        intro d hd
        cases hh : d.isDigit with
        | false => rfl
        | true =>
          obtain ⟨tail, htail⟩ := List.head?_eq_some_iff.1 hd
          simp [Token.beginsNumber, htail, hh] at hbegins
      refine ⟨'.' :: dots, l, rfl, by simpa using hdots, .inr ?_, by rw [read_point hhead, hread]⟩
      rcases hpoint with rfl | hpoint
      · obtain ⟨d, hd, -⟩ := l.digit
        obtain ⟨e, tail, htext⟩ := List.exists_cons_of_ne_nil (List.ne_nil_of_mem hd)
        have he : e.isDigit = false := hhead e (by simp [htext])
        have hnumeric := l.numeric e (by simp [htext])
        rw [htext, (Literal.isDigit_or_eq_point hnumeric).resolve_left (by simp [he])]
        rfl
      · exact hpoint

/-! ## The last literal -/

/-- A text that ends in a literal: what stands before its last run of digits and points, the points of
the run that belong to nothing, and the literal. -/
structure LastNumber (s front dots : List Char) (l : Literal) : Prop where
  text_eq : s = front ++ (dots ++ l.text.toList)
  front_end : ∀ c ∈ front.getLast?, isNumeric c = false
  points : ∀ c ∈ dots, c = '.'
  point : dots = [] ∨ l.text.toList.head? = some '.'
  read_eq : read s = read front ++ [number l]

/-- What is left in front of a run at the end does not end in a character of it. -/
theorem not_of_mem_getLast?_rdropWhile {p : Char → Bool} {s : List Char} {c : Char}
    (hc : c ∈ (s.rdropWhile p).getLast?) : p c = false := by
  obtain ⟨hne, rfl⟩ := List.mem_getLast?_eq_getLast hc
  simpa using List.rdropWhile_last_not p s hne

/-- A run at the end reaches over each end of the text that has its characters alone. -/
theorem suffix_rtakeWhile {p : Char → Bool} {s tail : List Char} (htail : tail <:+ s)
    (hrun : ∀ c ∈ tail, p c = true) : tail <:+ s.rtakeWhile p := by
  obtain ⟨u, rfl⟩ := htail
  rw [List.rtakeWhile, List.reverse_append,
    List.takeWhile_append_of_pos fun c hc => hrun c (List.mem_reverse.1 hc), List.reverse_append,
    List.reverse_reverse]
  exact List.suffix_append _ _

/-- What ends in digits and points, a digit among them, ends in a literal that reaches over them. -/
theorem exists_lastNumber {s tail : List Char} (htail : tail <:+ s)
    (hrun : ∀ c ∈ tail, isNumeric c = true) (hdigit : ∃ c ∈ tail, c.isDigit = true) :
    ∃ front dots l, LastNumber s front dots l := by
  have hcut : s.rdropWhile isNumeric ++ s.rtakeWhile isNumeric = s := List.rdropWhile_append_rtakeWhile
  have hfront : ∀ c ∈ (s.rdropWhile isNumeric).getLast?, isNumeric c = false := fun c =>
    not_of_mem_getLast?_rdropWhile
  have hnumeric : ∀ c ∈ s.rtakeWhile isNumeric, isNumeric c = true := fun c => List.mem_rtakeWhile_imp
  have hreach : tail <:+ s.rtakeWhile isNumeric := suffix_rtakeWhile htail hrun
  obtain ⟨d, hd, hdd⟩ := hdigit
  obtain ⟨dots, l, htext, hdots, hpoint, hread⟩ :=
    exists_read_run hnumeric ⟨d, hreach.subset hd, hdd⟩
  refine ⟨s.rdropWhile isNumeric, dots, l, by rw [← htext, hcut], hfront, hdots, hpoint, ?_⟩
  have hseparate : Separate (s.rdropWhile isNumeric) (s.rtakeWhile isNumeric) := by
    intro a ha b hb
    have hb := hnumeric b (List.mem_of_mem_head? hb)
    simp [hfront a ha, Literal.isAlpha_of_isNumeric hb]
  rw [← hread, ← read_append hseparate, hcut]

namespace LastNumber

variable {s front dots : List Char} {l : Literal}

/-- The last lexeme of a text that ends in a literal is the literal. -/
theorem getLast?_read (h : LastNumber s front dots l) : (read s).getLast? = some (number l) := by
  rw [h.read_eq, List.getLast?_concat]

/-- A literal that begins with a digit is the whole run. -/
theorem dots_eq_nil (h : LastNumber s front dots l) (hl : l.text.toList.head? ≠ some '.') : dots = [] :=
  h.point.resolve_right hl

/-- Points that are left over leave no lexeme. -/
theorem read_front_append (h : LastNumber s front dots l) {points : List Char}
    (hp : ∀ c ∈ points, c = '.') : read (front ++ points) = read front := by
  have hseparate : Separate front points := by
    intro a ha b hb
    obtain rfl := hp b (List.mem_of_mem_head? hb)
    simp [h.front_end a ha, show Char.isAlpha '.' = false by decide]
  rw [read_append hseparate, read_points hp, List.append_nil]

end LastNumber

/-- A literal with which a text ends, if it is the last lexeme, is found there. -/
theorem exists_lastNumber_of_suffix {s : List Char} {l : Literal} (hs : l.text.toList <:+ s)
    (hl : (read s).getLast? = some (number l)) : ∃ front dots, LastNumber s front dots l := by
  obtain ⟨front, dots, m, h⟩ := exists_lastNumber hs l.numeric l.digit
  obtain rfl : m = l := by simpa using h.getLast?_read.symm.trans hl
  exact ⟨front, dots, h⟩

end Lexeme

end DeskCalculator
