import DeskCalculator.Proofs.Origins

/-!
# Arranging keeps every token

The program of a token list is a rearrangement of it: each number, operator and name becomes one
instruction, and nothing else is added but one mark for each opening parenthesis that is never closed.
`perm_ofTokens` says so for every token list, well formed or not. It is read off the trace of the program
by forgetting the places.

The marks are counted by `Bracket.leftOpen`, which differs from `Bracket.depthAfter?` in passing over a
closing parenthesis that closes nothing.
-/

namespace DeskCalculator

open scoped List

namespace Bracket

/-- How many parentheses are open after a sequence of them, if `depth` are open before it. One that closes
nothing is passed over. -/
def leftOpen : Nat → List Bracket → Nat
  | depth, [] => depth
  | depth, opening :: bs => leftOpen (depth + 1) bs
  | depth, closing :: bs => leftOpen (depth - 1) bs

/-- The brackets of a text may be counted in two parts. -/
theorem leftOpen_append (depth : Nat) (bs cs : List Bracket) :
    leftOpen depth (bs ++ cs) = leftOpen (leftOpen depth bs) cs := by
  induction bs generalizing depth with
  | nil => rfl
  | cons b bs ih => cases b <;> exact ih _

/-- The places that are open are as many as the brackets left open. -/
theorem length_openPlaces (opens : List ℕ) (bs : List (Bracket × ℕ)) :
    (openPlaces opens bs).length = leftOpen opens.length (bs.map Prod.fst) := by
  induction bs generalizing opens with
  | nil => rfl
  | cons b bs ih =>
    obtain ⟨b, k⟩ := b
    cases b with
    | opening => exact ih (k :: opens)
    | closing => rw [openPlaces, ih, List.length_tail, List.map_cons, leftOpen]

end Bracket

namespace Program

/-- The tokens without a partner are as many as the brackets left open. -/
theorem length_partnerlessPlaces (ts : List Token) :
    (partnerlessPlaces ts).length = Bracket.leftOpen 0 (ts.filterMap Token.bracket?) := by
  have hopen := Bracket.openPlaces_eq [] (ts.zipIdx.filterMap (Traced.placed Token.bracket?))
  rw [List.drop_nil, List.append_nil] at hopen
  rw [partnerlessPlaces, ← hopen, Bracket.length_openPlaces, Traced.map_fst_filterMap_placed]
  rfl

/-- The program of a token list consists of the instructions of its tokens and of one mark for each
opening parenthesis that is never closed. -/
theorem perm_ofTokens (ts : List Token) :
    ofTokens ts ~ ts.filterMap Token.instruction? ++
      List.replicate (Bracket.leftOpen 0 (ts.filterMap Token.bracket?)) .unclosed := by
  have hperm := (trace_perm ts).map Prod.fst
  rw [map_fst_trace, List.map_append, Traced.map_fst_filterMap_placed, List.map_map] at hperm
  rwa [← length_partnerlessPlaces, ← List.map_const']

end Program

end DeskCalculator
