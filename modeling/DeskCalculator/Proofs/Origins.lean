import DeskCalculator.Proofs.Nesting

/-!
# Where instructions come from

`Program.trace` arranges tokens as `Program.ofTokens` does and keeps with every instruction the place of
the token that it comes from. Without the places it is the program (`map_fst_trace`), so what is shown of
a trace says which token has become which instruction.

A step moves places between what is written and what waits. It adds the place of its token, and it drops
nothing but the places of parentheses that are closed (`Traced.step_perm`, `Traced.open_step`). So at the
end each number, operator and name has one instruction, and a parenthesis has one if it was left open.
-/

namespace DeskCalculator

open scoped List

/-- The instruction that a token becomes; a parenthesis becomes none. -/
def Token.instruction? : Token → Option Instruction
  | number text value => some (.push text value)
  | operator op => some (.binary op.symbol)
  | identifier name => some (.ofName name)
  | leftParen | rightParen => none

namespace Program

/-! ## Arranging with places -/

namespace Traced

/-- `Program.flush`, with the places. -/
def flush (waiting : List (Pending × ℕ)) : List (Instruction × ℕ) :=
  waiting.map (Prod.map Pending.instruction id)

/-- `Program.close`, with the places. -/
def close : List (Pending × ℕ) → List (Instruction × ℕ) × List (Pending × ℕ)
  | (.paren, _) :: (.name n, k) :: waiting => ([(.ofName n, k)], waiting)
  | (.paren, _) :: waiting => ([], waiting)
  | waiting => ([], waiting)

/-- `Program.step`, with the places. -/
def step (waiting : List (Pending × ℕ)) : Token × ℕ → List (Instruction × ℕ) × List (Pending × ℕ)
  | (.number text value, k) => ([(.push text value, k)], waiting)
  | (.operator op, k) =>
    (flush (waiting.takeWhile (Pending.goesBefore op ∘ Prod.fst)),
      (.operator op, k) :: waiting.dropWhile (Pending.goesBefore op ∘ Prod.fst))
  | (.identifier n, k) => ([], (.name n, k) :: waiting)
  | (.leftParen, k) => ([], (.paren, k) :: waiting)
  | (.rightParen, _) =>
    let (called, rest) := close (waiting.dropWhile (Pending.isInside ∘ Prod.fst))
    (flush (waiting.takeWhile (Pending.isInside ∘ Prod.fst)) ++ called, rest)

/-- `Program.written`, with the places. -/
def written (waiting : List (Pending × ℕ)) : List (Token × ℕ) → List (Instruction × ℕ)
  | [] => []
  | t :: ts => (step waiting t).1 ++ written (step waiting t).2 ts

/-- `Program.waitingAfter`, with the places. -/
def waitingAfter (waiting : List (Pending × ℕ)) : List (Token × ℕ) → List (Pending × ℕ)
  | [] => waiting
  | t :: ts => waitingAfter (step waiting t).2 ts

/-- What waits is written part by part. -/
theorem flush_append (left right : List (Pending × ℕ)) :
    flush (left ++ right) = flush left ++ flush right :=
  List.map_append

/-- Places aside, what is written at the end is what the program without places writes. -/
theorem map_fst_flush (waiting : List (Pending × ℕ)) :
    (flush waiting).map Prod.fst = Program.flush (waiting.map Prod.fst) := by
  simp [flush, Program.flush]

/-- Places aside, a closing parenthesis does what it does without places. -/
theorem close_map_fst (waiting : List (Pending × ℕ)) :
    Program.close (waiting.map Prod.fst) =
      ((close waiting).1.map Prod.fst, (close waiting).2.map Prod.fst) := by
  match waiting with
  | (.paren, _) :: (.name n, _) :: rest => rfl
  | [(.paren, _)] | (.paren, _) :: (.operator _, _) :: _ | (.paren, _) :: (.paren, _) :: _ => rfl
  | [] | (.operator _, _) :: _ | (.name _, _) :: _ => rfl

/-- Without the places, a step is a step of the program. -/
theorem step_map_fst (waiting : List (Pending × ℕ)) (t : Token × ℕ) :
    Program.step (waiting.map Prod.fst) t.1 =
      ((step waiting t).1.map Prod.fst, (step waiting t).2.map Prod.fst) := by
  obtain ⟨t, k⟩ := t
  cases t with
  | number text value => rfl
  | identifier n => rfl
  | leftParen => rfl
  | operator op =>
    rw [Program.step, List.takeWhile_map, List.dropWhile_map, step, map_fst_flush]
    rfl
  | rightParen =>
    simp only [Program.step, List.takeWhile_map, List.dropWhile_map, close_map_fst, step,
      List.map_append, map_fst_flush]

/-- Places aside, the same is written and the same waits. -/
theorem written_map_fst (waiting : List (Pending × ℕ)) (ts : List (Token × ℕ)) :
    Program.written (waiting.map Prod.fst) (ts.map Prod.fst) = (written waiting ts).map Prod.fst ∧
      Program.waitingAfter (waiting.map Prod.fst) (ts.map Prod.fst) =
        (waitingAfter waiting ts).map Prod.fst := by
  induction ts generalizing waiting with
  | nil => exact ⟨rfl, rfl⟩
  | cons t ts ih =>
    obtain ⟨hwritten, hwaiting⟩ := ih (step waiting t).2
    rw [List.map_cons, Program.written, Program.waitingAfter, step_map_fst, hwritten, hwaiting,
      written, waitingAfter, List.map_append]
    exact ⟨rfl, rfl⟩

/-- What is written and what waits after two lists of tokens is reached through the first. -/
theorem written_append (waiting : List (Pending × ℕ)) (xs ys : List (Token × ℕ)) :
    written waiting (xs ++ ys) = written waiting xs ++ written (waitingAfter waiting xs) ys ∧
      waitingAfter waiting (xs ++ ys) = waitingAfter (waitingAfter waiting xs) ys := by
  induction xs generalizing waiting with
  | nil => exact ⟨rfl, rfl⟩
  | cons t xs ih =>
    obtain ⟨hwritten, hwaiting⟩ := ih (step waiting t).2
    simp only [List.cons_append, written, waitingAfter, hwritten, hwaiting, List.append_assoc,
      and_self]

/-! ## What is written and what is held -/

/-- What the token at a place is or becomes, at that place. -/
def placed {β : Type} (f : Token → Option β) (t : Token × ℕ) : Option (β × ℕ) :=
  (f t.1).map (·, t.2)

/-- Places aside, the tokens are picked as they are without places. -/
theorem map_fst_filterMap_placed {β : Type} (f : Token → Option β) (ts : List Token) (n : ℕ) :
    ((ts.zipIdx n).filterMap (placed f)).map Prod.fst = ts.filterMap f := by
  induction ts generalizing n with
  | nil => rfl
  | cons t ts ih =>
    rw [List.zipIdx_cons, filterMap_cons_eq, filterMap_cons_eq, List.map_append, ih, placed]
    cases f t <;> rfl

/-- What waits and will be written sooner or later. -/
def held (waiting : List (Pending × ℕ)) : List (Instruction × ℕ) :=
  flush (waiting.filter (Pending.isInside ∘ Prod.fst))

/-- What is held is held part by part. -/
theorem held_append (left right : List (Pending × ℕ)) :
    held (left ++ right) = held left ++ held right := by
  rw [held, List.filter_append, flush_append]
  rfl

/-- What is released in one go contains no parenthesis, so all of it is written. -/
theorem flush_takeWhile {p : Pending → Bool} (hp : p .paren = false) (waiting : List (Pending × ℕ)) :
    flush (waiting.takeWhile (p ∘ Prod.fst)) = held (waiting.takeWhile (p ∘ Prod.fst)) := by
  rw [held, List.filter_eq_self.2]
  rintro ⟨w, k⟩ hw
  have hreleased : (p ∘ Prod.fst) (w, k) = true := List.mem_takeWhile_imp hw
  cases w with
  | operator | name => rfl
  | paren => simp [hp] at hreleased

/-- What is released and what is left are what was held. -/
theorem held_takeWhile_append_dropWhile (p : Pending × ℕ → Bool) (waiting : List (Pending × ℕ)) :
    held (waiting.takeWhile p) ++ held (waiting.dropWhile p) = held waiting := by
  rw [← held_append, List.takeWhile_append_dropWhile]

/-- Closing a group writes the name in front of it, or nothing. -/
theorem held_close (waiting : List (Pending × ℕ)) :
    (close waiting).1 ++ held (close waiting).2 = held waiting := by
  match waiting with
  | (.paren, _) :: (.name n, _) :: rest => rfl
  | [(.paren, _)] | (.paren, _) :: (.operator _, _) :: _ | (.paren, _) :: (.paren, _) :: _ => rfl
  | [] | (.operator _, _) :: _ | (.name _, _) :: _ => rfl

/-- A step writes or holds what it wrote or held before, and the instruction of the token. -/
theorem step_perm (waiting : List (Pending × ℕ)) (t : Token × ℕ) :
    (step waiting t).1 ++ held (step waiting t).2 ~ (placed Token.instruction? t).toList ++ held waiting := by
  obtain ⟨t, k⟩ := t
  cases t with
  | number text value => exact .refl _
  | identifier n => exact .refl _
  | leftParen => exact .refl _
  | operator op =>
    have hsplit := held_takeWhile_append_dropWhile (Pending.goesBefore op ∘ Prod.fst) waiting
    show flush (waiting.takeWhile (Pending.goesBefore op ∘ Prod.fst)) ++
      (.binary op.symbol, k) :: held (waiting.dropWhile (Pending.goesBefore op ∘ Prod.fst)) ~
        (.binary op.symbol, k) :: held waiting
    rw [flush_takeWhile rfl, ← hsplit]
    exact List.perm_middle
  | rightParen =>
    have hsplit := held_takeWhile_append_dropWhile (Pending.isInside ∘ Prod.fst) waiting
    have hclose := held_close (waiting.dropWhile (Pending.isInside ∘ Prod.fst))
    simp only [step]
    rw [List.append_assoc, hclose, flush_takeWhile rfl, hsplit]
    exact .refl _

/-- A run writes or holds what was held before and the instructions of its tokens. -/
theorem written_perm (waiting : List (Pending × ℕ)) (ts : List (Token × ℕ)) :
    written waiting ts ++ held (waitingAfter waiting ts) ~
      ts.filterMap (placed Token.instruction?) ++ held waiting := by
  induction ts generalizing waiting with
  | nil => exact .refl _
  | cons t ts ih =>
    rw [written, waitingAfter, filterMap_cons_eq, List.append_assoc]
    -- the rest of the run starts from what the first step holds
    calc (step waiting t).1 ++ (written (step waiting t).2 ts ++
          held (waitingAfter (step waiting t).2 ts))
      _ ~ (step waiting t).1 ++ (ts.filterMap (placed Token.instruction?) ++ held (step waiting t).2) :=
        (ih _).append_left _
      _ ~ ts.filterMap (placed Token.instruction?) ++ ((step waiting t).1 ++ held (step waiting t).2) := by
        rw [← List.append_assoc, ← List.append_assoc]
        exact List.perm_append_comm.append_right _
      _ ~ ts.filterMap (placed Token.instruction?) ++ ((placed Token.instruction? t).toList ++ held waiting) :=
        (step_perm waiting t).append_left _
      _ ~ (placed Token.instruction? t).toList ++ ts.filterMap (placed Token.instruction?) ++ held waiting := by
        rw [← List.append_assoc]
        exact List.perm_append_comm.append_right _

/-! ## The places of open parentheses -/

/-- The places of the opening parentheses that wait, the last one first. -/
def openPlaces : List (Pending × ℕ) → List ℕ
  | [] => []
  | (.paren, k) :: waiting => k :: openPlaces waiting
  | (.operator _, _) :: waiting | (.name _, _) :: waiting => openPlaces waiting

/-- At the end everything that waits is written, parentheses as marks. -/
theorem flush_perm (waiting : List (Pending × ℕ)) :
    flush waiting ~ held waiting ++ (openPlaces waiting).map (.unclosed, ·) := by
  induction waiting with
  | nil => exact .refl _
  | cons w waiting ih =>
    obtain ⟨w, k⟩ := w
    cases w with
    | operator op => exact ih.cons _
    | name n => exact ih.cons _
    | paren => exact (ih.cons _).trans List.perm_middle.symm

/-- What a condition that parentheses do not meet skips contains none. -/
theorem openPlaces_dropWhile {p : Pending → Bool} (hp : p .paren = false)
    (waiting : List (Pending × ℕ)) :
    openPlaces (waiting.dropWhile (p ∘ Prod.fst)) = openPlaces waiting := by
  induction waiting with
  | nil => rfl
  | cons w waiting ih =>
    obtain ⟨w, k⟩ := w
    by_cases hw : (p ∘ Prod.fst) (w, k) = true
    · rw [List.dropWhile_cons_of_pos hw, ih]
      cases w with
      | operator | name => rfl
      | paren => simp [hp] at hw
    · rw [List.dropWhile_cons_of_neg hw]

/-- A closing parenthesis closes the last one that is open. -/
theorem openPlaces_close (waiting : List (Pending × ℕ)) :
    openPlaces (close (waiting.dropWhile (Pending.isInside ∘ Prod.fst))).2 =
      (openPlaces waiting).tail := by
  induction waiting with
  | nil => rfl
  | cons w waiting ih =>
    obtain ⟨w, k⟩ := w
    cases w with
    | operator | name => exact ih
    | paren =>
      rw [List.dropWhile_cons_of_neg (by simp [Pending.isInside])]
      rcases waiting with _ | ⟨⟨_ | _ | _, _⟩, waiting⟩ <;> rfl

end Traced

end Program

namespace Bracket

/-- The places that are open after parentheses, the last one first, if `opens` are open before. One that
closes nothing is passed over. -/
def openPlaces : (opens : List ℕ) → List (Bracket × ℕ) → List ℕ
  | opens, [] => opens
  | opens, (opening, k) :: bs => openPlaces (k :: opens) bs
  | opens, (closing, _) :: bs => openPlaces opens.tail bs

/-- How many parentheses close nothing that is opened in front of them. -/
def stray : List Bracket → ℕ
  | [] => 0
  | opening :: bs => stray bs - 1
  | closing :: bs => stray bs + 1

/-- Brackets can be followed at a depth exactly if they close no more than what is open there. -/
theorem isSome_depthAfter?_iff (depth : ℕ) (bs : List Bracket) :
    (depthAfter? depth bs).isSome = true ↔ stray bs ≤ depth := by
  induction bs generalizing depth with
  | nil => simp [depthAfter?, stray]
  | cons b bs ih =>
    cases b with
    | opening =>
      rw [depthAfter?, ih, stray]
      omega
    | closing =>
      cases depth with
      | zero => simp [depthAfter?, stray]
      | succ depth =>
        rw [depthAfter?, ih, stray]
        omega

/-- The places of the opening parentheses that nothing behind them closes, the last one first. -/
def partnerless : List (Bracket × ℕ) → List ℕ
  | [] => []
  | (opening, k) :: bs =>
    partnerless bs ++ if (depthAfter? 0 (bs.map Prod.fst)).isSome then [k] else []
  | (closing, _) :: bs => partnerless bs

/-- What is open at the end is what nothing has closed; the parentheses that close nothing here have closed
what was open before. -/
theorem openPlaces_eq (opens : List ℕ) (bs : List (Bracket × ℕ)) :
    openPlaces opens bs = partnerless bs ++ opens.drop (stray (bs.map Prod.fst)) := by
  induction bs generalizing opens with
  | nil => simp [openPlaces, partnerless, stray]
  | cons b bs ih =>
    obtain ⟨b, k⟩ := b
    cases b with
    | closing =>
      rw [openPlaces, ih, partnerless, List.map_cons, stray, List.drop_tail]
    | opening =>
      rw [openPlaces, ih, partnerless, List.append_assoc, List.map_cons, stray]
      have hclosed := isSome_depthAfter?_iff 0 (bs.map Prod.fst)
      cases hstray : stray (bs.map Prod.fst) with
      | zero => rw [if_pos (hclosed.2 (by omega))]; rfl
      | succ n => rw [if_neg fun h => by have := hclosed.1 h; omega]; rfl

end Bracket

namespace Program.Traced

/-- The parentheses that wait after a run are those that are open. -/
theorem openPlaces_waitingAfter (waiting : List (Pending × ℕ)) (ts : List (Token × ℕ)) :
    openPlaces (waitingAfter waiting ts) =
      Bracket.openPlaces (openPlaces waiting) (ts.filterMap (placed Token.bracket?)) := by
  induction ts generalizing waiting with
  | nil => rfl
  | cons t ts ih =>
    obtain ⟨t, k⟩ := t
    rw [waitingAfter, ih, filterMap_cons_eq]
    cases t with
    | number text value => rfl
    | identifier n => rfl
    | leftParen => rfl
    | operator op =>
      have hkeep : openPlaces (step waiting (.operator op, k)).2 = openPlaces waiting :=
        openPlaces_dropWhile rfl waiting
      rw [hkeep]
      rfl
    | rightParen =>
      have hclose : openPlaces (step waiting (.rightParen, k)).2 = (openPlaces waiting).tail :=
        openPlaces_close waiting
      rw [hclose]
      rfl

end Program.Traced

/-! ## The trace of a program -/

namespace Program

/-- The instructions of a token list with the places of their tokens. -/
def trace (ts : List Token) : List (Instruction × ℕ) :=
  Traced.written [] ts.zipIdx ++ Traced.flush (Traced.waitingAfter [] ts.zipIdx)

/-- Without the places, the trace is the program. -/
theorem map_fst_trace (ts : List Token) : (trace ts).map Prod.fst = ofTokens ts := by
  have hts : ts.zipIdx.map Prod.fst = ts := List.zipIdx_map_fst 0 ts
  obtain ⟨hwritten, hwaiting⟩ := Traced.written_map_fst [] ts.zipIdx
  rw [hts, List.map_nil] at hwritten hwaiting
  rw [trace, List.map_append, Traced.map_fst_flush, ← hwritten, ← hwaiting, ofTokens,
    arrange_eq_written]

/-- The places of the opening parentheses that are never closed, the last one first. -/
def partnerlessPlaces (ts : List Token) : List ℕ :=
  Bracket.partnerless (ts.zipIdx.filterMap (Traced.placed Token.bracket?))

/-- A trace consists of the instructions of the tokens and of a mark for each opening parenthesis that is
never closed, all at their places. -/
theorem trace_perm (ts : List Token) :
    trace ts ~ ts.zipIdx.filterMap (Traced.placed Token.instruction?) ++
      (partnerlessPlaces ts).map (.unclosed, ·) := by
  have hopen : Traced.openPlaces (Traced.waitingAfter [] ts.zipIdx) = partnerlessPlaces ts := by
    rw [Traced.openPlaces_waitingAfter, Bracket.openPlaces_eq, partnerlessPlaces]
    simp [Traced.openPlaces]
  have hrun := Traced.written_perm [] ts.zipIdx
  rw [show Traced.held [] = [] from rfl, List.append_nil] at hrun
  rw [trace, ← hopen]
  calc Traced.written [] ts.zipIdx ++ Traced.flush (Traced.waitingAfter [] ts.zipIdx)
    _ ~ Traced.written [] ts.zipIdx ++ (Traced.held (Traced.waitingAfter [] ts.zipIdx) ++
          (Traced.openPlaces (Traced.waitingAfter [] ts.zipIdx)).map (.unclosed, ·)) :=
      (Traced.flush_perm _).append_left _
    _ ~ ts.zipIdx.filterMap (Traced.placed Token.instruction?) ++
          (Traced.openPlaces (Traced.waitingAfter [] ts.zipIdx)).map (.unclosed, ·) := by
      rw [← List.append_assoc]
      exact hrun.append_right _

end Program

end DeskCalculator
