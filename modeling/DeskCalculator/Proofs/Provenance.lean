import DeskCalculator.Proofs.Conservation
import DeskCalculator.Proofs.KnownOperators

/-!
# Which token has become which instruction

Arranging loses no token and adds none, however the tokens are nested. `Program.Conserves` says this of a
program in two ways. It counts the instructions of each kind, and it gives every instruction the place of
the token that it comes from (`Program.Traces`), which tells two operators of one sign apart. With the
places it can also be said what stands where: whatever follows a number among the tokens is written after
this number.

`Program.exists_conserves` asks nothing of the tokens but that the ranks of their operators are known,
for otherwise they are refused.
-/

namespace DeskCalculator

open scoped List

/-- An instruction that pushes a number. -/
def Instruction.isPush : Instruction → Bool
  | push _ _ => true
  | _ => false

namespace Token

/-- The push of a number. -/
def push? : Token → Option Instruction
  | number text value => some (.push text value)
  | _ => none

/-- The instruction that a token has become if it is found in a program. An opening parenthesis is found
there as the mark of one that is never closed. -/
def traced? : Token → Option Instruction
  | leftParen => some .unclosed
  | t => t.instruction?

/-- Nothing behind an opening parenthesis closes it: no closing parenthesis there lacks an opening one. -/
def Partnerless (after : List Token) : Prop :=
  (Bracket.depthAfter? 0 (after.filterMap bracket?)).isSome = true

instance (after : List Token) : Decidable (Partnerless after) :=
  inferInstanceAs (Decidable (_ = true))

/-- How many opening parentheses of a token list have no partner. -/
def countPartnerless : List Token → ℕ
  | [] => 0
  | leftParen :: ts => countPartnerless ts + if Partnerless ts then 1 else 0
  | _ :: ts => countPartnerless ts

end Token

/-- Any name but the one for a parenthesis left open stands for a call. -/
theorem Instruction.ofName_of_ne {name : String} (h : name ≠ unclosedSymbol) :
    ofName name = call name := if_neg h

/-- Different names give different instructions, also the one that gives the mark. -/
theorem Instruction.ofName_inj {m n : String} : ofName m = ofName n ↔ m = n := by
  refine ⟨fun h => ?_, fun h => by rw [h]⟩
  unfold ofName at h
  split at h <;> split at h <;> simp_all

namespace Token

/-- A binary instruction comes from an operator with its symbol. -/
theorem instruction?_eq_some_binary_iff {t : Token} {symbol : String} :
    t.instruction? = some (.binary symbol) ↔ t.kind = .operator ∧ t.text = symbol := by
  cases t with
  | identifier n =>
    simp only [instruction?, Instruction.ofName, kind]
    split <;> simp
  | _ => simp [instruction?, kind, text]

/-- A call comes from an identifier with its name. -/
theorem instruction?_eq_some_ofName_iff {t : Token} {name : String} :
    t.instruction? = some (.ofName name) ↔ t.kind = .identifier ∧ t.text = name := by
  cases t with
  | identifier n => simp [instruction?, Instruction.ofName_inj, kind, text]
  | number | operator =>
    simp only [instruction?, Instruction.ofName, kind]
    split <;> simp
  | leftParen | rightParen => simp [instruction?, kind]

/-- No token becomes a foreign instruction. -/
theorem instruction?_ne_foreign (t : Token) (kind : Kind) (symbol : String) :
    t.instruction? ≠ some (.foreign kind symbol) := by
  cases t with
  | identifier n =>
    simp only [instruction?, Instruction.ofName]
    split <;> simp
  | _ => simp [instruction?]

end Token

namespace Program

/-- Each instruction of the program comes from the token at its place. The place of a token is the number
of tokens in front of it. -/
structure Traces (ts : List Token) (program : Program) (places : List ℕ) : Prop where
  instructions : List.Forall₂ (fun i k => ∃ t : Token, ts[k]? = some t ∧ t.traced? = some i)
    program places
  /-- No token has become two instructions. -/
  nodup : places.Nodup
  /-- Every number, operator and name has become an instruction. -/
  complete : ∀ before (t : Token) after, ts = before ++ t :: after → t.instruction?.isSome = true →
    before.length ∈ places
  /-- An opening parenthesis has become one exactly if it has no partner. -/
  marks : ∀ before after, ts = before ++ .leftParen :: after →
    (before.length ∈ places ↔ Token.Partnerless after)
  /-- What has become of the tokens behind a number is written after this number. -/
  behind : ∀ before text value after, ts = before ++ .number text value :: after →
    ∀ k ∈ places, before.length < k → places.idxOf before.length < places.idxOf k

/-- The program keeps the tokens and consists of nothing else. -/
structure Conserves (ts : List Token) (program : Program) : Prop where
  /-- The numbers are pushed in their order. -/
  pushes : program.filter Instruction.isPush = ts.filterMap Token.push?
  operators : ∀ symbol, program.count (.binary symbol) =
    ts.countP fun t => t.kind = .operator ∧ t.text = symbol
  names : ∀ name ≠ Instruction.unclosedSymbol, program.count (.call name) =
    ts.countP fun t => t.kind = .identifier ∧ t.text = name
  /-- A mark for each opening parenthesis without a partner. A name spelled like a parenthesis, which no
  text has, would give one too. -/
  marks : program.count .unclosed = Token.countPartnerless ts +
    ts.countP fun t => t.kind = .identifier ∧ t.text = Instruction.unclosedSymbol
  /-- No token is taken for an instruction. -/
  foreign : ∀ kind symbol, .foreign kind symbol ∉ program
  places : ∃ places, Traces ts program places

/-! ## Counting -/

/-- What waits pushes no number. -/
theorem filter_isPush_flush (waiting : List Pending) :
    (flush waiting).filter Instruction.isPush = [] := by
  refine List.filter_eq_nil_iff.2 fun i hi => ?_
  obtain ⟨w, -, rfl⟩ := List.mem_map.1 hi
  cases w with
  | operator op => simp [Pending.instruction, Instruction.isPush]
  | name n =>
    rw [Pending.instruction, Instruction.ofName]
    split <;> simp [Instruction.isPush]
  | paren => simp [Pending.instruction, Instruction.isPush]

/-- A closing parenthesis releases no number. -/
theorem filter_isPush_close (waiting : List Pending) :
    (close waiting).1.filter Instruction.isPush = [] := by
  unfold close
  split
  · exact filter_isPush_flush [.name _]
  · rfl
  · rfl

/-- A step pushes the number that its token is. -/
theorem filter_isPush_step (waiting : List Pending) (t : Token) :
    (step waiting t).1.filter Instruction.isPush = t.push?.toList := by
  cases t with
  | number text value => rfl
  | operator op => exact filter_isPush_flush _
  | leftParen => rfl
  | identifier n => rfl
  | rightParen =>
    simp only [step, List.filter_append, filter_isPush_flush, filter_isPush_close]
    rfl

/-- The numbers are pushed in the order of the tokens. -/
theorem filter_isPush_arrange (waiting : List Pending) (ts : List Token) :
    (arrange waiting ts).filter Instruction.isPush = ts.filterMap Token.push? := by
  induction ts generalizing waiting with
  | nil => exact filter_isPush_flush waiting
  | cons t ts ih => rw [arrange, List.filter_append, filter_isPush_step, ih, filterMap_cons_eq]

/-- The parentheses without a partner are counted alike with places and without. -/
theorem length_partnerless_eq (ts : List Token) (n : ℕ) :
    (Bracket.partnerless ((ts.zipIdx n).filterMap (Traced.placed Token.bracket?))).length =
      Token.countPartnerless ts := by
  induction ts generalizing n with
  | nil => rfl
  | cons t ts ih =>
    rw [List.zipIdx_cons, filterMap_cons_eq]
    cases t with
    | leftParen =>
      show (Bracket.partnerless ((.opening, n) ::
        (ts.zipIdx (n + 1)).filterMap (Traced.placed Token.bracket?))).length = _
      rw [Bracket.partnerless, Traced.map_fst_filterMap_placed, List.length_append, ih,
        Token.countPartnerless]
      congr 1
      exact apply_ite List.length _ _ _
    | number | operator | rightParen | identifier => exact ih (n + 1)

/-- The marks of parentheses that are left open are counted by those without a partner. -/
theorem count_ofTokens (ts : List Token) (i : Instruction) :
    (ofTokens ts).count i = ts.countP (fun t => t.instruction? == some i) +
      (List.replicate (Token.countPartnerless ts) Instruction.unclosed).count i := by
  rw [(perm_ofTokens ts).count_eq, List.count_append, List.count_filterMap,
    ← length_partnerlessPlaces, partnerlessPlaces, length_partnerless_eq]

/-! ## Places -/

/-- What is picked at a place comes from the token there. -/
theorem mem_filterMap_placed {β : Type} {f : Token → Option β} {ts : List Token} {b : β} {k : ℕ} :
    (b, k) ∈ ts.zipIdx.filterMap (Traced.placed f) ↔ ∃ t : Token, ts[k]? = some t ∧ f t = some b := by
  rw [List.mem_filterMap]
  constructor
  · rintro ⟨⟨t, l⟩, hmem, hplaced⟩
    obtain ⟨c, hc, heq⟩ := Option.map_eq_some_iff.1 hplaced
    obtain ⟨rfl, rfl⟩ := Prod.mk.inj heq
    exact ⟨t, List.mem_zipIdx_iff_getElem?.1 hmem, hc⟩
  · rintro ⟨t, ht, hb⟩
    exact ⟨(t, k), List.mem_zipIdx_iff_getElem?.2 ht, by simp [Traced.placed, hb]⟩

/-- A place holds one thing at most. -/
theorem map_snd_placed_sublist {β : Type} (f : Token → Option β) (ts : List (Token × ℕ)) :
    (ts.filterMap (Traced.placed f)).map Prod.snd <+ ts.map Prod.snd := by
  induction ts with
  | nil => exact .refl _
  | cons t ts ih =>
    rw [filterMap_cons_eq, List.map_append, List.map_cons, Traced.placed]
    cases f t.1 with
    | none => exact ih.cons _
    | some b => exact ih.cons_cons _

/-- The parentheses without a partner stand in the order of the text. -/
theorem partnerless_reverse_sublist (bs : List (Bracket × ℕ)) :
    (Bracket.partnerless bs).reverse <+ bs.map Prod.snd := by
  induction bs with
  | nil => exact .refl _
  | cons b bs ih =>
    obtain ⟨b, k⟩ := b
    cases b with
    | closing => exact ih.cons _
    | opening =>
      rw [Bracket.partnerless, List.reverse_append, List.map_cons]
      split
      · exact ih.cons_cons _
      · exact ih.cons _

/-- No place is picked twice. -/
theorem nodup_places (ts : List Token) {β : Type} (f : Token → Option β) :
    ((ts.zipIdx.filterMap (Traced.placed f)).map Prod.snd).Nodup := by
  refine (map_snd_placed_sublist f ts.zipIdx).nodup ?_
  rw [List.zipIdx_map_snd]
  exact List.nodup_range'

/-- The places of the parentheses without a partner, when the tokens begin at the place `n`. -/
theorem mem_partnerless_iff (ts : List Token) (n k : ℕ) :
    k ∈ Bracket.partnerless ((ts.zipIdx n).filterMap (Traced.placed Token.bracket?)) ↔
      ∃ before after, ts = before ++ .leftParen :: after ∧ k = n + before.length ∧
        Token.Partnerless after := by
  induction ts generalizing n with
  | nil => simp [Bracket.partnerless]
  | cons t ts ih =>
    -- the parenthesis is the first token or lies behind it
    have hsplit : (∃ before after, t :: ts = before ++ .leftParen :: after ∧
        k = n + before.length ∧ Token.Partnerless after) ↔
        (t = .leftParen ∧ k = n ∧ Token.Partnerless ts) ∨
          ∃ before after, ts = before ++ .leftParen :: after ∧ k = n + 1 + before.length ∧
            Token.Partnerless after := by
      constructor
      · rintro ⟨before, after, hts, rfl, hafter⟩
        rcases List.cons_eq_append_iff.1 hts with ⟨rfl, h⟩ | ⟨rest, rfl, h⟩
        · obtain ⟨rfl, rfl⟩ := List.cons.inj h
          exact .inl ⟨rfl, rfl, hafter⟩
        · exact .inr ⟨rest, after, h, by rw [List.length_cons]; omega, hafter⟩
      · rintro (⟨rfl, rfl, hafter⟩ | ⟨before, after, rfl, rfl, hafter⟩)
        · exact ⟨[], ts, rfl, rfl, hafter⟩
        · exact ⟨t :: before, after, rfl, by rw [List.length_cons]; omega, hafter⟩
    rw [hsplit, ← ih, List.zipIdx_cons, filterMap_cons_eq]
    cases t with
    | leftParen =>
      show k ∈ Bracket.partnerless ((.opening, n) ::
        (ts.zipIdx (n + 1)).filterMap (Traced.placed Token.bracket?)) ↔ _
      rw [Bracket.partnerless, Traced.map_fst_filterMap_placed, List.mem_append, or_comm,
        Token.Partnerless]
      split <;> simp_all
    | number | operator | rightParen | identifier => simp [Traced.placed, Token.bracket?, Bracket.partnerless]

/-! ## The trace -/

/-- What a trace holds at a place: the instruction of the token there, or the mark of a parenthesis without
a partner. -/
theorem mem_trace_iff {ts : List Token} {i : Instruction} {k : ℕ} :
    (i, k) ∈ trace ts ↔ (∃ t : Token, ts[k]? = some t ∧ t.instruction? = some i) ∨
      i = .unclosed ∧ ∃ before after, ts = before ++ .leftParen :: after ∧ k = before.length ∧
        Token.Partnerless after := by
  have hmarks := mem_partnerless_iff ts 0 k
  simp only [Nat.zero_add] at hmarks
  rw [(trace_perm ts).mem_iff, List.mem_append, mem_filterMap_placed, ← hmarks, partnerlessPlaces]
  simp [and_comm, eq_comm]

/-- No place is written twice. -/
theorem nodup_map_snd_trace (ts : List Token) : ((trace ts).map Prod.snd).Nodup := by
  rw [((trace_perm ts).map Prod.snd).nodup_iff, List.map_append, List.map_map]
  have hmarks : (partnerlessPlaces ts).map (Prod.snd ∘ fun k => (Instruction.unclosed, k)) =
      partnerlessPlaces ts := List.map_id _
  rw [hmarks, List.nodup_append]
  refine ⟨nodup_places ts _, ?_, ?_⟩
  · rw [← List.nodup_reverse]
    exact (partnerless_reverse_sublist _).nodup (nodup_places ts _)
  · -- at the place of a parenthesis stands no other token
    rintro k hk _ hmark rfl
    obtain ⟨⟨i, k⟩, hmem, rfl⟩ := List.mem_map.1 hk
    obtain ⟨t, ht, hinstruction⟩ := mem_filterMap_placed.1 hmem
    obtain ⟨before, after, rfl, hbefore, -⟩ := (mem_partnerless_iff ts 0 k).1 hmark
    rw [Nat.zero_add] at hbefore
    obtain rfl : .leftParen = t := by simpa [hbefore] using ht
    simp [Token.instruction?] at hinstruction

/-- A number splits the trace: what is written in front of it comes from the tokens in front of it. -/
theorem trace_append_number (before : List Token) (text : String) (value : Option Float)
    (after : List Token) :
    ∃ front back, trace (before ++ .number text value :: after) =
        front ++ (.push text value, before.length) :: back ∧ ∀ j ∈ front, j.2 < before.length := by
  have hzip : (before ++ .number text value :: after).zipIdx =
      before.zipIdx ++ (.number text value, before.length) :: after.zipIdx (before.length + 1) := by
    rw [List.zipIdx_append, List.zipIdx_cons, Nat.zero_add]
  refine ⟨Traced.written [] before.zipIdx,
    Traced.written (Traced.waitingAfter [] before.zipIdx) (after.zipIdx (before.length + 1)) ++
      Traced.flush (Traced.waitingAfter [] (before ++ .number text value :: after).zipIdx), ?_, ?_⟩
  · rw [trace, hzip, (Traced.written_append [] _ _).1, List.append_assoc]
    rfl
  · rintro ⟨i, k⟩ hmem
    have hrun := (Traced.written_perm [] before.zipIdx).subset (List.mem_append_left _ hmem)
    rw [show Traced.held [] = [] from rfl, List.append_nil] at hrun
    obtain ⟨t, ht, -⟩ := mem_filterMap_placed.1 hrun
    exact (List.getElem?_eq_some_iff.1 ht).1

/-- The places in the trace of a token list are where the instructions come from. -/
theorem traces_trace (ts : List Token) : Traces ts (ofTokens ts) ((trace ts).map Prod.snd) where
  instructions := by
    rw [← map_fst_trace, List.forall₂_map_left_iff, List.forall₂_map_right_iff, List.forall₂_same]
    rintro ⟨i, k⟩ hmem
    rcases mem_trace_iff.1 hmem with ⟨t, ht, hi⟩ | ⟨rfl, before, after, rfl, rfl, -⟩
    · refine ⟨t, ht, ?_⟩
      cases t with
      | leftParen => simp [Token.instruction?] at hi
      | number | operator | rightParen | identifier => exact hi
    · exact ⟨.leftParen, by simp, rfl⟩
  nodup := nodup_map_snd_trace ts
  complete := by
    rintro before t after rfl h
    obtain ⟨i, hi⟩ := Option.isSome_iff_exists.1 h
    exact List.mem_map.2 ⟨(i, before.length), mem_trace_iff.2 (.inl ⟨t, by simp, hi⟩), rfl⟩
  marks := by
    rintro before after rfl
    constructor
    · intro h
      obtain ⟨⟨i, k⟩, hmem, rfl⟩ := List.mem_map.1 h
      rcases mem_trace_iff.1 hmem with ⟨t, ht, hi⟩ | ⟨-, xs, ys, heq, hlength, hys⟩
      · obtain rfl : .leftParen = t := by simpa using ht
        simp [Token.instruction?] at hi
      · obtain ⟨-, heq⟩ := List.append_inj heq hlength
        rwa [List.cons.inj heq |>.2]
    · intro h
      exact List.mem_map.2 ⟨(.unclosed, before.length),
        mem_trace_iff.2 (.inr ⟨rfl, before, after, rfl, rfl, h⟩), rfl⟩
  behind := by
    rintro before text value after rfl k hk hlt
    obtain ⟨front, back, htrace, hfront⟩ := trace_append_number before text value after
    have hnotMem : ∀ l, before.length ≤ l → l ∉ front.map Prod.snd := by
      intro l hl hmem
      obtain ⟨j, hj, rfl⟩ := List.mem_map.1 hmem
      have := hfront j hj
      omega
    rw [htrace, List.map_append, List.map_cons, List.idxOf_append_of_notMem (hnotMem _ le_rfl),
      List.idxOf_append_of_notMem (hnotMem k hlt.le), List.idxOf_cons_self,
      List.idxOf_cons_ne _ (by omega)]
    omega

/-- Tokens whose operators are known are arranged as a program that keeps them, however they are nested. -/
theorem exists_conserves {ts : List Token}
    (h : ∀ op, .operator op ∈ ts → op.rank?.isSome = true) :
    ∃ program, ofTokens? ts = .ok program ∧ Conserves ts program := by
  refine ⟨ofTokens ts, ?_, ?_, ?_, ?_, ?_, ?_, _, traces_trace ts⟩
  · rw [ofTokens?, firstUnranked?_eq_none (by simp) h]
  · exact filter_isPush_arrange [] ts
  · intro symbol
    rw [count_ofTokens, List.count_replicate, if_neg (by simp), Nat.add_zero]
    exact List.countP_congr fun t _ => by simp [Token.instruction?_eq_some_binary_iff]
  · intro name hname
    rw [← Instruction.ofName_of_ne hname, count_ofTokens, List.count_replicate,
      if_neg (by simp [Instruction.ofName_of_ne hname]), Nat.add_zero]
    exact List.countP_congr fun t _ => by simp [Token.instruction?_eq_some_ofName_iff]
  · rw [count_ofTokens, List.count_replicate_self, Nat.add_comm]
    congr 1
    exact List.countP_congr fun t _ => by
      simp [← Token.instruction?_eq_some_ofName_iff, Instruction.ofName]
  · intro kind symbol hmem
    have hpos := List.count_pos_iff.2 hmem
    rw [count_ofTokens, List.count_replicate, if_neg (by simp), Nat.add_zero, List.countP_pos_iff]
      at hpos
    obtain ⟨t, -, ht⟩ := hpos
    exact Token.instruction?_ne_foreign t kind symbol (by simpa using ht)

/-- The tokens of `) * ( 1.2.3 foo ( - 4 ) ( + * 5`, which no text gives: the minus is a unary operator
without its zero, and spelled `?`. -/
def strayTokens : List Token :=
  [.rightParen, .operator (.binary .mul), .leftParen, .number "1.2.3" none, .identifier "foo", .leftParen,
    .operator ⟨"?", true⟩, .number "4" (some 4), .rightParen, .leftParen, .operator (.binary .add),
    .operator (.binary .mul), .number "5" (some 5)]

/-- Tokens that no text gives, with a parenthesis that closes nothing and two that are never closed. -/
theorem conserves_strayTokens :
    (∀ op, .operator op ∈ strayTokens → op.rank?.isSome = true) ∧
      ofTokens? strayTokens = .ok [.push "1.2.3" none, .push "4" (some 4), .binary "?", .call "foo",
        .push "5" (some 5), .binary "*", .binary "+", .unclosed, .unclosed, .binary "*"] ∧
      Conserves strayTokens [.push "1.2.3" none, .push "4" (some 4), .binary "?", .call "foo",
        .push "5" (some 5), .binary "*", .binary "+", .unclosed, .unclosed, .binary "*"] := by
  have hknown : ∀ op, .operator op ∈ strayTokens → op.rank?.isSome = true := by
    intro op hop
    simp only [strayTokens, List.mem_cons, Token.operator.injEq, reduceCtorEq, false_or, or_false,
      List.not_mem_nil] at hop
    rcases hop with rfl | rfl | rfl | rfl <;> rfl
  obtain ⟨program, hok, hconserves⟩ := exists_conserves hknown
  have hprogram : ofTokens? strayTokens = .ok [.push "1.2.3" none, .push "4" (some 4), .binary "?",
      .call "foo", .push "5" (some 5), .binary "*", .binary "+", .unclosed, .unclosed,
      .binary "*"] := by
    decide +kernel
  obtain rfl := Except.ok.inj (hok.symm.trans hprogram)
  exact ⟨hknown, hok, hconserves⟩

end Program

end DeskCalculator
