import DeskCalculator.Proofs.Provenance

/-!
# The order of what waits

While tokens are arranged, operators, names and opening parentheses wait on a stack. An operator that comes
next releases the operators on top that go before it, so it comes to rest on one that binds less tightly,
or equally tightly if it groups to the right itself (`Rank.mayRestOn_iff`). Nothing else is ever put on an
operator, and whatever takes something off leaves a lower part of the stack. So every two operators
with nothing between them are in this order: `Traced.isChain_step` for one token,
`Traced.isChain_waitingAfter` for a run.

What the stack holds is told by the places of its tokens. It holds tokens that have been read, the last one
on top (`Traced.waitingAfter_sublist`), and of the opening parentheses exactly those that nothing has closed so
far. `exists_wellStacked` puts this together, also for the points at which a token has taken off a part of
the stack and goes on.
-/

namespace DeskCalculator

open scoped List

/-- An operator of rank `upper` may wait on top of one of rank `lower`: it binds tighter, or equally tightly
and groups to the right. -/
def Rank.MayRestOn (upper lower : Rank) : Prop :=
  lower.precedence < upper.precedence ∨
    lower.precedence = upper.precedence ∧ upper.rightAssociative = true

/-- An operator rests on exactly those that it does not let go first. -/
theorem Rank.mayRestOn_iff (upper lower : Rank) :
    upper.MayRestOn lower ↔ lower.goesBefore upper = false := by
  rcases lt_trichotomy lower.precedence upper.precedence with h | h | h
  · simp [MayRestOn, goesBefore, h, h.ne, h.le]
  · simp [MayRestOn, goesBefore, h]
  · simp [MayRestOn, goesBefore, h, h.ne', h.not_gt]

namespace Pending

/-- Two operators of which one waits on top of the other are in order. Names and parentheses may wait on
anything, and anything on them. -/
def RestsOn : Pending → Pending → Prop
  | operator upper, operator lower => upper.rank.MayRestOn lower.rank
  | _, _ => True

/-- What does not go before an operator may have it waiting on top. -/
theorem restsOn_of_goesBefore_eq_false {op : Operator} {p : Pending} (h : p.goesBefore op = false) :
    (operator op).RestsOn p := by
  cases p with
  | operator lower => exact (Rank.mayRestOn_iff _ _).2 h
  | name | paren => trivial

end Pending

/-! ## What one token does to the stack -/

/-- What a token waits as. -/
def Token.pending? : Token → Option Pending
  | operator op => some (.operator op)
  | identifier name => some (.name name)
  | leftParen => some .paren
  | number _ _ | rightParen => none

namespace Program

namespace Traced

/-- Closing a parenthesis leaves the bottom of what waits. -/
theorem close_suffix (waiting : List (Pending × ℕ)) : (close waiting).2 <:+ waiting := by
  unfold close
  split
  · exact ⟨[_, _], rfl⟩
  · exact ⟨[_], rfl⟩
  · exact List.suffix_rfl

/-- What waits after a token has waited before, or is the token itself, which lies on top. -/
theorem step_sublist (waiting : List (Pending × ℕ)) (t : Token × ℕ) :
    (step waiting t).2 <+ (placed Token.pending? t).toList ++ waiting := by
  obtain ⟨t, k⟩ := t
  cases t with
  | number | identifier | leftParen => exact .refl _
  | operator op => exact (List.dropWhile_sublist _).cons_cons _
  | rightParen => exact (close_suffix _).sublist.trans (List.dropWhile_sublist _)

/-- A token leaves the operators in order. -/
theorem isChain_step {waiting : List (Pending × ℕ)}
    (h : waiting.IsChain fun w v => w.1.RestsOn v.1) (t : Token × ℕ) :
    (step waiting t).2.IsChain fun w v => w.1.RestsOn v.1 := by
  obtain ⟨t, k⟩ := t
  cases t with
  | number text value => exact h
  | identifier n => exact h.cons fun w _ => trivial
  | leftParen => exact h.cons fun w _ => trivial
  | operator op =>
    refine List.IsChain.cons (h.suffix (List.dropWhile_suffix _)) ?_
    intro w hw
    -- what the operator comes to rest on is the first that it does not release
    have hstop := List.head?_dropWhile_not (Pending.goesBefore op ∘ Prod.fst) waiting
    rw [Option.mem_def.1 hw] at hstop
    exact Pending.restsOn_of_goesBefore_eq_false (by simpa using hstop)
  | rightParen => exact h.suffix ((close_suffix _).trans (List.dropWhile_suffix _))

/-! ## What a run does to it -/

/-- Tokens leave the operators in order. -/
theorem isChain_waitingAfter {waiting : List (Pending × ℕ)}
    (h : waiting.IsChain fun w v => w.1.RestsOn v.1) (ts : List (Token × ℕ)) :
    (waitingAfter waiting ts).IsChain fun w v => w.1.RestsOn v.1 := by
  induction ts generalizing waiting with
  | nil => exact h
  | cons t ts ih => exact ih (isChain_step h t)

/-- What waits after a run are tokens of it in reverse order, and then what waited before. -/
theorem waitingAfter_sublist (waiting : List (Pending × ℕ)) (ts : List (Token × ℕ)) :
    waitingAfter waiting ts <+ (ts.filterMap (placed Token.pending?)).reverse ++ waiting := by
  induction ts generalizing waiting with
  | nil => exact .refl _
  | cons t ts ih =>
    have hreverse : ((t :: ts).filterMap (placed Token.pending?)).reverse ++ waiting =
        (ts.filterMap (placed Token.pending?)).reverse ++ ((placed Token.pending? t).toList ++ waiting) := by
      rw [filterMap_cons_eq, List.reverse_append, List.append_assoc]
      cases placed Token.pending? t <;> rfl
    rw [waitingAfter, hreverse]
    exact (ih _).trans ((step_sublist waiting t).append_left _)

/-- The open parentheses of two parts are those of the first and then those of the second. -/
theorem openPlaces_append (left right : List (Pending × ℕ)) :
    openPlaces (left ++ right) = openPlaces left ++ openPlaces right := by
  induction left with
  | nil => rfl
  | cons w left ih =>
    obtain ⟨_ | _ | _, k⟩ := w
    · exact ih
    · exact ih
    · exact congrArg (k :: ·) ih

end Traced

/-! ## The stack at every point -/

/-- The stack after the tokens `before`, each entry with the place of its token, if `released` has been
taken off it and `left` is left. -/
structure WellStacked (before : List Token) (released left : List (Pending × ℕ)) : Prop where
  /-- The entries are tokens that have been read, the last one on top. -/
  tokens : released ++ left <+ (before.zipIdx.filterMap (Traced.placed Token.pending?)).reverse
  /-- Of two operators with nothing between them the upper one binds tighter, or equally tightly and groups
  to the right. -/
  operators : ∀ above upper j lower k below,
    left = above ++ (.operator upper, j) :: (.operator lower, k) :: below → upper.rank.MayRestOn lower.rank
  /-- The parentheses, those just taken off included, are the ones that nothing has closed so far. -/
  parens : Traced.openPlaces released ++ Traced.openPlaces left = partnerlessPlaces before

/-- At every point of arranging tokens whose operators are known, the operators that wait are in order, and
the parentheses that wait are those still open. -/
theorem exists_wellStacked {before after : List Token}
    (h : ∀ op, .operator op ∈ before ++ after → op.rank?.isSome = true) :
    ofTokens? (before ++ after) =
        .ok (written [] before ++ arrange (waitingAfter [] before) after) ∧
      ∃ stack : List (Pending × ℕ), stack.map Prod.fst = waitingAfter [] before ∧
        ∀ released left, stack = released ++ left → WellStacked before released left := by
  have hfst : (Traced.waitingAfter [] before.zipIdx).map Prod.fst = waitingAfter [] before := by
    have hrun := (Traced.written_map_fst [] before.zipIdx).2
    rw [List.zipIdx_map_fst] at hrun
    exact hrun.symm
  refine ⟨?_, _, hfst, ?_⟩
  · rw [ofTokens?, firstUnranked?_eq_none (by simp) h, ofTokens, arrange_append]
  intro released left hstack
  refine ⟨?_, ?_, ?_⟩
  · have hsublist := Traced.waitingAfter_sublist [] before.zipIdx
    rwa [List.append_nil, hstack] at hsublist
  · rintro above upper j lower k below rfl
    have hchain := Traced.isChain_waitingAfter .nil before.zipIdx
    rw [hstack, ← List.append_assoc] at hchain
    exact (List.isChain_append_cons_cons.1 hchain).2.1
  · rw [← Traced.openPlaces_append, ← hstack, Traced.openPlaces_waitingAfter, Bracket.openPlaces_eq,
      partnerlessPlaces]
    simp [Traced.openPlaces]

/-- The tokens of `1 + 2 ^ 3 ^ ( -`, of which the last has become a zero and a unary operator. -/
def tower : List Token :=
  [.number "1" (some 1), .operator (.binary .add), .number "2" (some 2), .operator (.binary .pow),
    .number "3" (some 3), .operator (.binary .pow), .leftParen, .number "0" (some 0), .operator .unaryMinus]

/-- The tokens of `4 * 5 ) / 6`, which close the tower. -/
def towerEnd : List Token :=
  [.number "4" (some 4), .operator (.binary .mul), .number "5" (some 5), .rightParen,
    .operator (.binary .div), .number "6" (some 6)]

/-- A tower of operators that grow in rank, a unary minus behind a parenthesis, and what takes all of it
down. -/
theorem exists_wellStacked_tower :
    (∀ op, .operator op ∈ tower ++ towerEnd → op.rank?.isSome = true) ∧
      waitingAfter [] tower = [.operator .unaryMinus, .paren, .operator (.binary .pow),
        .operator (.binary .pow), .operator (.binary .add)] ∧
      partnerlessPlaces tower = [6] ∧
      ofTokens? (tower ++ towerEnd) = .ok (written [] tower ++ arrange (waitingAfter [] tower) towerEnd) ∧
      ∃ stack : List (Pending × ℕ), stack.map Prod.fst = waitingAfter [] tower ∧
        ∀ released left, stack = released ++ left → WellStacked tower released left := by
  have hknown : ∀ op, .operator op ∈ tower ++ towerEnd → op.rank?.isSome = true := by
    intro op hop
    simp only [tower, towerEnd, List.cons_append, List.nil_append, List.mem_cons, Token.operator.injEq,
      reduceCtorEq, false_or, or_false, List.not_mem_nil] at hop
    rcases hop with rfl | rfl | rfl | rfl | rfl | rfl <;> rfl
  exact ⟨hknown, rfl, by decide +kernel, exists_wellStacked hknown⟩

end Program

end DeskCalculator
