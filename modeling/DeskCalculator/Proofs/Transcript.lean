import DeskCalculator.Proofs.KnownOperators
import DeskCalculator.Proofs.PercentTokens
import DeskCalculator.Proofs.WrittenTokens

/-!
# What the tokens keep of a text

The texts of the written tokens of a text, one after the other, are the text itself with the other spellings
of `*` and `/` replaced and with everything left out that belongs to nothing. `Text.kept?` says what becomes of
one character, given what stands before and after it, without any reading; `respelled_eq` shows by induction
over the reading that this is what the lexemes keep. What carries the induction is `Fresh`: the reader stands
where no number and no word goes on.

Where numbers and names stand is found by cutting the text behind each lexeme (`exists_cut`). A name is then the
longest run of letters there, and a number the longest run of digits and points that begins with a digit, or with
a point before a digit. Of several points in front of the first digit only the last one begins a number, so the
run of a number need not be the longest of digits and points.

`Token.transcript` puts the two together.
-/

namespace DeskCalculator

namespace Text

/-! ## What becomes of a character -/

/-- A run of digits and points with a digit in it ends here; what stands before is given nearest first. -/
def endsInNumber (before : List Char) : Bool :=
  (before.takeWhile Token.isNumeric).any Char.isDigit

/-- A letter stands at the head. -/
def besideLetter (s : List Char) : Bool :=
  s.head?.any Char.isAlpha

/-- What is kept of a character, by what stands before it, nearest first, and what stands after it. A point
is kept if a digit follows it, or if one stands before it in the same run of digits and points. The letter `x` is
a sign if it is a word of its own. -/
def kept? (before : List Char) (c : Char) (after : List Char) : Option Char :=
  if c = '×' then some '*'
  else if c = '÷' then some '/'
  else if c = '.' then
    if after.head?.any Char.isDigit || endsInNumber before then some '.' else none
  else if c = 'x' ∧ besideLetter before = false ∧ besideLetter after = false then some '*'
  else if c.isAlpha || c.isDigit || ['+', '-', '*', '/', '^', '(', ')'].contains c then some c
  else none

/-- What is kept of a text, if `before` stands before it, nearest first. -/
def respelled (before : List Char) : List Char → List Char
  | [] => []
  | c :: after => (kept? before c after).toList ++ respelled (c :: before) after

/-- A digit is kept. -/
theorem kept?_of_isDigit {c : Char} (h : c.isDigit = true) (before after : List Char) :
    kept? before c after = some c := by
  have hne : ∀ d : Char, d.isDigit = false → c ≠ d := by
    rintro d hd rfl
    rw [h] at hd
    cases hd
  rw [kept?, if_neg (hne _ (by decide)), if_neg (hne _ (by decide)), if_neg (hne _ (by decide)),
    if_neg fun hx => hne 'x' (by decide) hx.1, if_pos (by simp [h])]

/-- A letter is kept, unless it is an `x` by itself. -/
theorem kept?_of_isAlpha {before : List Char} {c : Char} {after : List Char} (h : c.isAlpha = true)
    (hx : c ≠ 'x' ∨ besideLetter before = true ∨ besideLetter after = true) :
    kept? before c after = some c := by
  have hne : ∀ d : Char, d.isAlpha = false → c ≠ d := by
    rintro d hd rfl
    rw [h] at hd
    cases hd
  rw [kept?, if_neg (hne _ (by decide)), if_neg (hne _ (by decide)), if_neg (hne _ (by decide)),
    if_neg, if_pos (by simp [h])]
  rintro ⟨rfl, hbefore, hafter⟩
  simp [hbefore, hafter] at hx

/-- A point is kept if a digit follows it or a number ends before it. -/
theorem kept?_point (before after : List Char) :
    kept? before '.' after =
      if after.head?.any Char.isDigit || endsInNumber before then some '.' else none := by
  simp [kept?]

/-- A character that is of no number and no word is kept as its lexeme is written. -/
theorem kept?_of_other {c : Char} (ha : c.isAlpha = false) (hn : Token.isNumeric c = false)
    (before after : List Char) :
    (kept? before c after).toList = (Lexeme.ofChar? c).toList.flatMap fun l => l.text.toList := by
  unfold Lexeme.ofChar?
  split
  all_goals try rfl
  next hplus hminus htimes hcross hover hdivided hpow hopen hclose =>
    have hx : c ≠ 'x' := by
      rintro rfl
      cases ha
    simp only [Token.isNumeric, Bool.or_eq_false_iff, decide_eq_false_iff_not] at hn
    simp_all [kept?]

/-- A run is kept as it is, if each of its characters is kept inside of it. -/
theorem respelled_run (Inside : List Char → Prop) (p : Char → Bool)
    (hkeep : ∀ before c after, Inside before → p c = true →
      kept? before c after = some c ∧ Inside (c :: before))
    {before : List Char} (hbefore : Inside before) (run rest : List Char) (hrun : ∀ c ∈ run, p c = true) :
    respelled before (run ++ rest) = run ++ respelled (run.reverse ++ before) rest := by
  induction run generalizing before with
  | nil => rfl
  | cons c run ih =>
    obtain ⟨hkept, hinside⟩ := hkeep before c (run ++ rest) hbefore (hrun c (by simp))
    rw [List.cons_append, respelled, hkept, ih hinside fun d hd => hrun d (by simp [hd])]
    simp

/-- One more character of a run makes it a number if it is a digit. -/
theorem endsInNumber_cons {c : Char} (hc : Token.isNumeric c = true) (before : List Char) :
    endsInNumber (c :: before) = (c.isDigit || endsInNumber before) := by
  simp [endsInNumber, hc]

/-- From a digit on the whole run of digits and points is kept. -/
theorem respelled_of_isDigit {c : Char} (hc : c.isDigit = true) (before rest : List Char) :
    respelled before (c :: rest) =
      c :: rest.takeWhile Token.isNumeric ++
        respelled ((c :: rest.takeWhile Token.isNumeric).reverse ++ before)
          (rest.dropWhile Token.isNumeric) := by
  have hinside : endsInNumber (c :: before) = true := by
    rw [endsInNumber_cons (by simp [Token.isNumeric, hc]), hc, Bool.true_or]
  have hkeep : ∀ before c after, endsInNumber before = true → Token.isNumeric c = true →
      kept? before c after = some c ∧ endsInNumber (c :: before) = true := by
    intro before c after hbefore hnumeric
    refine ⟨?_, by rw [endsInNumber_cons hnumeric, hbefore, Bool.or_true]⟩
    rcases Literal.isDigit_or_eq_point hnumeric with hdigit | rfl
    · exact kept?_of_isDigit hdigit before after
    · rw [kept?_point, hbefore, Bool.or_true, if_pos rfl]
  have hrun := respelled_run _ _ hkeep hinside (rest.takeWhile Token.isNumeric)
    (rest.dropWhile Token.isNumeric) fun d hd => List.mem_takeWhile_imp hd
  rw [List.takeWhile_append_dropWhile] at hrun
  rw [respelled, kept?_of_isDigit hc, hrun]
  simp

/-- A number begins with a digit, or with a point and then a digit. -/
theorem beginsNumber_cases {c : Char} {rest : List Char} (h : Token.beginsNumber c rest = true) :
    c.isDigit = true ∨ c = '.' ∧ ∃ d tail, rest = d :: tail ∧ d.isDigit = true := by
  cases hc : c.isDigit with
  | true => exact .inl rfl
  | false =>
    simp only [Token.beginsNumber, hc, Bool.false_or, Bool.and_eq_true, decide_eq_true_eq] at h
    obtain ⟨rfl, hdigit⟩ := h
    cases rest with
    | nil => cases hdigit
    | cons d tail => exact .inr ⟨rfl, d, tail, rfl, hdigit⟩

/-- The whole run of a number is kept. -/
theorem respelled_of_beginsNumber {c : Char} {rest : List Char} (h : Token.beginsNumber c rest = true)
    (before : List Char) :
    respelled before (c :: rest) =
      c :: rest.takeWhile Token.isNumeric ++
        respelled ((c :: rest.takeWhile Token.isNumeric).reverse ++ before)
          (rest.dropWhile Token.isNumeric) := by
  rcases beginsNumber_cases h with hc | ⟨rfl, d, tail, rfl, hd⟩
  · exact respelled_of_isDigit hc before rest
  · have hnumeric : Token.isNumeric d = true := by simp [Token.isNumeric, hd]
    have hkept : kept? before '.' (d :: tail) = some '.' := by simp [kept?_point, hd]
    rw [respelled, hkept, respelled_of_isDigit hd]
    simp [hnumeric]

/-- The letters of a word are kept, unless it is the sign `x`. -/
theorem respelled_of_isAlpha {c : Char} {rest before : List Char} (hc : c.isAlpha = true)
    (hbefore : besideLetter before = false) :
    respelled before (c :: rest) =
      (if c :: rest.takeWhile Char.isAlpha = ['x'] then ['*'] else c :: rest.takeWhile Char.isAlpha) ++
        respelled ((c :: rest.takeWhile Char.isAlpha).reverse ++ before)
          (rest.dropWhile Char.isAlpha) := by
  split
  next hword =>
    obtain ⟨rfl, hnone⟩ := List.cons.inj hword
    have hafter : besideLetter rest = false := by
      cases rest with
      | nil => rfl
      | cons d rest => simpa [besideLetter] using hnone
    have hrest : rest.dropWhile Char.isAlpha = rest := by
      have hsplit := List.takeWhile_append_dropWhile (p := Char.isAlpha) (l := rest)
      rwa [hnone, List.nil_append] at hsplit
    have hkept : kept? before 'x' rest = some '*' := by simp [kept?, hbefore, hafter]
    rw [respelled, hkept, hnone, hrest]
    rfl
  next hword =>
    have hkept : kept? before c rest = some c := by
      refine kept?_of_isAlpha hc ?_
      by_cases hx : c = 'x'
      · refine .inr (.inr ?_)
        cases rest with
        | nil => simp [hx] at hword
        | cons d rest =>
          by_contra hd
          simp_all [besideLetter]
      · exact .inl hx
    have hkeep : ∀ before c after, besideLetter before = true → c.isAlpha = true →
        kept? before c after = some c ∧ besideLetter (c :: before) = true := by
      intro before c after hletter halpha
      exact ⟨kept?_of_isAlpha halpha (.inr (.inl hletter)), halpha⟩
    have hinside : besideLetter (c :: before) = true := hc
    have hrun := respelled_run _ _ hkeep hinside (rest.takeWhile Char.isAlpha)
      (rest.dropWhile Char.isAlpha) fun d hd => List.mem_takeWhile_imp hd
    rw [List.takeWhile_append_dropWhile] at hrun
    rw [respelled, hkept, hrun]
    simp

end Text

namespace Lexeme

open Text (kept? respelled endsInNumber besideLetter)

/-! ## What the lexemes keep -/

/-- No number and no word goes on from what stands before, nearest first, into the text. -/
structure Fresh (before s : List Char) : Prop where
  word : ∀ c ∈ s.head?, c.isAlpha = true → besideLetter before = false
  number : ∀ c ∈ s.head?, Token.isNumeric c = true → endsInNumber before = false

/-- A text may be read afresh behind a piece that it is separate from. -/
theorem Fresh.of_separate {piece s : List Char} (hne : piece ≠ []) (h : Separate piece s)
    (before : List Char) : Fresh (piece.reverse ++ before) s := by
  obtain ⟨init, last, rfl⟩ := List.eq_nil_or_concat piece |>.resolve_left hne
  rw [List.concat_eq_append] at h ⊢
  have hlast : last ∈ (init ++ [last]).getLast? := List.getLast?_concat ..
  rw [List.reverse_append, List.reverse_singleton, List.singleton_append, List.cons_append]
  constructor
  · intro c hc halpha
    have hnot : last.isAlpha = false := by simpa [halpha] using (h last hlast c hc).1
    exact hnot
  · intro c hc hnumeric
    have hnot : Token.isNumeric last = false := by simpa [hnumeric] using (h last hlast c hc).2
    simp [endsInNumber, hnot]

/-- A character that is neither a letter nor part of a literal is apart from whatever follows. -/
theorem separate_singleton {c : Char} (ha : c.isAlpha = false) (hn : Token.isNumeric c = false)
    (ys : List Char) : Separate [c] ys := by
  intro a hc b _
  obtain rfl : c = a := by simpa using hc
  simp [ha, hn]

/-- A word is spelled as it stands, but for the `x` that multiplies. -/
theorem text_ofWord {word : List Char} (h : ∀ c ∈ word, c.isAlpha = true) (hne : word ≠ []) :
    (ofWord word h hne).text.toList = if word = ['x'] then ['*'] else word := by
  rw [ofWord]
  split
  · rfl
  · rw [text, String.toList_ofList]

/-- Read afresh, a text keeps the texts of its lexemes. -/
theorem respelled_eq {before s : List Char} (h : Fresh before s) :
    respelled before s = (read s).flatMap fun l => l.text.toList := by
  fun_induction read s generalizing before with
  | case1 => rfl
  | case2 c rest hn ih =>
    have hfresh := Fresh.of_separate (List.cons_ne_nil _ _)
      (separate_takeWhile_isNumeric (isNumeric_of_beginsNumber hn) rest) before
    rw [Text.respelled_of_beginsNumber hn, ih hfresh, List.flatMap_cons, text, Literal.text_ofRun,
      String.toList_ofList]
  | case3 c rest hn ha ih =>
    have hfresh := Fresh.of_separate (List.cons_ne_nil _ _) (separate_takeWhile_isAlpha ha rest) before
    rw [Text.respelled_of_isAlpha ha (h.word c rfl ha), ih hfresh, List.flatMap_cons, text_ofWord]
  | case4 c rest hn ha ih =>
    have halpha : c.isAlpha = false := by simpa using ha
    have hdigit : c.isDigit = false := by
      by_contra hdigit
      simp [Token.beginsNumber, hdigit] at hn
    rw [respelled, List.flatMap_append]
    by_cases hpoint : c = '.'
    · -- no digit follows the point, and none stands before it in its run
      subst hpoint
      have hbefore : endsInNumber before = false := h.number '.' rfl rfl
      have hafter : rest.head?.any Char.isDigit = false := by
        cases rest with
        | nil => rfl
        | cons d rest => simpa [Token.beginsNumber] using hn
      have hfresh : Fresh ('.' :: before) rest := by
        refine ⟨fun _ _ _ => rfl, fun _ _ _ => ?_⟩
        rw [Text.endsInNumber_cons rfl, hbefore]
        rfl
      rw [Text.kept?_point, hafter, hbefore, ih hfresh]
      rfl
    · have hnumeric : Token.isNumeric c = false := by simp [Token.isNumeric, hdigit, hpoint]
      have hfresh : Fresh (c :: before) rest :=
        Fresh.of_separate (List.cons_ne_nil c []) (separate_singleton halpha hnumeric rest) before
      rw [Text.kept?_of_other halpha hnumeric, ih hfresh]

/-! ## Cutting behind a lexeme -/

/-- A text that is cut behind the lexeme `l`, of which the lexemes `left` stand before. The signs have several
spellings, all other lexemes end the first part with their text. -/
structure Cut (s upto after : List Char) (left : List Lexeme) (l : Lexeme) : Prop where
  text_eq : s = upto ++ after
  separate : Separate upto after
  read_eq : read upto = left ++ [l]
  ends : l.text.toList <:+ upto ∨ ∃ op, l = .sign op

/-- A piece in front that is read in the same way whatever part of the rest follows it. -/
theorem Cut.extend {piece rest upto after : List Char} {first left : List Lexeme} {l : Lexeme}
    (hpiece : ∀ t, t <+: rest → read (piece ++ t) = first ++ read t) (h : Cut rest upto after left l) :
    Cut (piece ++ rest) (piece ++ upto) after (first ++ left) l where
  text_eq := by rw [h.text_eq, List.append_assoc]
  separate := by
    have hne : upto ≠ [] := by
      rintro rfl
      have hread := h.read_eq
      simp at hread
    intro a ha
    rw [List.getLast?_append_of_ne_nil _ hne] at ha
    exact h.separate a ha
  read_eq := by rw [hpiece upto ⟨after, h.text_eq.symm⟩, h.read_eq, List.append_assoc]
  ends := h.ends.imp_left fun hsuffix => hsuffix.trans (List.suffix_append _ _)

/-- A text is also apart from the beginning of what it is apart from. -/
theorem Separate.of_prefix {xs ys zs : List Char} (h : Separate xs ys) (hz : zs <+: ys) :
    Separate xs zs := by
  intro a ha b hb
  obtain ⟨rest, rfl⟩ := hz
  refine h a ha b ?_
  cases zs with
  | nil => cases hb
  | cons c zs => exact hb

/-- A piece that is one lexeme is cut off itself, or the cut lies in the rest. -/
theorem exists_cut_of_piece {piece rest : List Char} {left right : List Lexeme} {l m : Lexeme}
    (hcut : Separate piece rest) (hread : read piece = [m])
    (hends : m.text.toList <:+ piece ∨ ∃ op, m = .sign op)
    (ih : ∀ {left}, read rest = left ++ l :: right → ∃ upto after, Cut rest upto after left l)
    (h : m :: read rest = left ++ l :: right) :
    ∃ upto after, Cut (piece ++ rest) upto after left l := by
  cases left with
  | nil =>
    obtain ⟨rfl, -⟩ := List.cons.inj h
    exact ⟨piece, rest, rfl, hcut, hread, hends⟩
  | cons k left =>
    obtain ⟨rfl, hrest⟩ := List.cons.inj h
    obtain ⟨upto, after, hlater⟩ := ih hrest
    have hpiece : ∀ t, t <+: rest → read (piece ++ t) = [m] ++ read t := by
      intro t ht
      rw [read_append (hcut.of_prefix ht), hread]
    exact ⟨_, _, hlater.extend hpiece⟩

/-- A word ends with its own text, unless it is a sign. -/
theorem ends_of_ofWord {word : List Char} (h : ∀ c ∈ word, c.isAlpha = true) (hne : word ≠ []) :
    (ofWord word h hne).text.toList <:+ word ∨ ∃ op, ofWord word h hne = .sign op := by
  by_cases hx : word = ['x']
  · exact .inr ⟨.mul, by rw [ofWord, dif_pos hx]⟩
  · exact .inl (by rw [text_ofWord, if_neg hx])

/-- A character ends with its own text, unless it is a sign. -/
theorem ends_of_ofChar? {c : Char} {l : Lexeme} (h : ofChar? c = some l) :
    l.text.toList <:+ [c] ∨ ∃ op, l = .sign op := by
  unfold ofChar? at h
  split at h
  all_goals cases h
  all_goals first | exact .inr ⟨_, rfl⟩ | exact .inl ⟨[], by decide⟩

/-- Behind each lexeme a text can be cut. -/
theorem exists_cut {s : List Char} {left right : List Lexeme} {l : Lexeme}
    (h : read s = left ++ l :: right) : ∃ upto after, Cut s upto after left l := by
  fun_induction read s generalizing left with
  | case1 => simp at h
  | case2 c rest hn ih =>
    have hcut := exists_cut_of_piece
      (separate_takeWhile_isNumeric (isNumeric_of_beginsNumber hn) rest) (read_takeWhile_isNumeric hn)
      (.inl (by rw [text, Literal.text_ofRun, String.toList_ofList])) ih h
    rwa [List.cons_append, List.takeWhile_append_dropWhile] at hcut
  | case3 c rest hn ha ih =>
    have hletters : ∀ d ∈ c :: rest.takeWhile Char.isAlpha, d.isAlpha = true := by
      simpa [ha] using fun d hd => List.mem_takeWhile_imp hd
    have hcut := exists_cut_of_piece (separate_takeWhile_isAlpha ha rest)
      (read_letters hletters (by simp)) (ends_of_ofWord hletters (by simp)) ih h
    rwa [List.cons_append, List.takeWhile_append_dropWhile] at hcut
  | case4 c rest hn ha ih =>
    have halpha : c.isAlpha = false := by simpa using ha
    -- whether a number begins here shows in the first character of what follows
    have hread : ∀ t, t <+: rest → read ([c] ++ t) = (ofChar? c).toList ++ read t := by
      rintro t ⟨tail, rfl⟩
      refine read_of_other halpha ?_
      cases t with
      | nil => simp_all [Token.beginsNumber]
      | cons d t => exact Bool.not_eq_true _ ▸ hn
    cases hc : ofChar? c with
    | none =>
      rw [hc] at h hread
      obtain ⟨upto, after, hcut⟩ := ih h
      exact ⟨_, _, hcut.extend hread⟩
    | some m =>
      rw [hc] at h hread
      have hnumeric : Token.isNumeric c = false := by
        by_contra hnumeric
        rcases Literal.isDigit_or_eq_point (by simpa using hnumeric) with hdigit | rfl
        · simp [Token.beginsNumber, hdigit] at hn
        · cases hc
      exact exists_cut_of_piece (separate_singleton halpha hnumeric rest)
        (by simpa using hread [] (List.nil_prefix ..)) (ends_of_ofChar? hc) ih h

/-- A word with which a text ends, if it is the last lexeme, begins behind a character that is no letter. -/
theorem exists_lastWord {s : List Char} {left : List Lexeme} {w : Word} (hs : w.text.toList <:+ s)
    (hread : read s = left ++ [name w]) :
    ∃ front, s = front ++ w.text.toList ∧ (∀ c ∈ front.getLast?, c.isAlpha = false) ∧ read front = left := by
  have hsplit : s.rdropWhile Char.isAlpha ++ s.rtakeWhile Char.isAlpha = s :=
    List.rdropWhile_append_rtakeWhile
  have hfront : ∀ c ∈ (s.rdropWhile Char.isAlpha).getLast?, c.isAlpha = false := fun c =>
    not_of_mem_getLast?_rdropWhile
  have hletters : ∀ c ∈ s.rtakeWhile Char.isAlpha, c.isAlpha = true := fun c => List.mem_rtakeWhile_imp
  have hreach : w.text.toList <:+ s.rtakeWhile Char.isAlpha := suffix_rtakeWhile hs w.letters
  have hcut : Separate (s.rdropWhile Char.isAlpha) (s.rtakeWhile Char.isAlpha) := by
    intro a ha b hb
    have halpha := hletters b (List.mem_of_mem_head? hb)
    simp [hfront a ha, Literal.isNumeric_of_isAlpha halpha]
  have hne : s.rtakeWhile Char.isAlpha ≠ [] := by
    intro hnil
    rw [hnil, List.suffix_nil] at hreach
    exact w.ne_nil hreach
  rw [← hsplit, read_append hcut, read_letters hletters hne] at hread
  obtain ⟨hleft, hword⟩ := List.append_inj' hread rfl
  have htext := text_ofWord hletters hne
  rw [(List.cons.inj hword).1, text] at htext
  split at htext
  · -- a star is no letter
    have hstar := w.letters '*' (by simp [htext])
    cases hstar
  · exact ⟨_, by rw [htext, hsplit], hfront, hleft⟩

end Lexeme

namespace Text

/-! ## Longest runs -/

/-- A run with the property that is part of no longer one, between what stands before and after it. -/
structure IsLongest (P : List Char → Prop) (before run after : List Char) : Prop where
  holds : P run
  longest : ∀ l r, l <:+ before → r <+: after → P (l ++ run ++ r) → l = [] ∧ r = []

/-- A run of letters. -/
def IsWord (run : List Char) : Prop :=
  run ≠ [] ∧ ∀ c ∈ run, c.isAlpha = true

/-- A run of digits and points that begins with a digit, or with a point before a digit. -/
def IsNumeral (run : List Char) : Prop :=
  (∀ c ∈ run, Token.isNumeric c = true) ∧
    ∃ d rest, d.isDigit = true ∧ (run = d :: rest ∨ run = '.' :: d :: rest)

/-- What ends a text and has characters of a kind in which the text does not end is empty. -/
theorem eq_nil_of_suffix {p : Char → Bool} {l before : List Char} (hl : l <:+ before)
    (hbefore : ∀ c ∈ before.getLast?, p c = false) (hall : ∀ c ∈ l, p c = true) : l = [] := by
  by_contra hne
  have hlast := hbefore _ (Percent.getLast_mem_getLast? hl hne)
  rw [hall _ (List.getLast_mem hne)] at hlast
  cases hlast

/-- What begins a text and has characters of a kind with which the text does not begin is empty. -/
theorem eq_nil_of_prefix {p : Char → Bool} {r after : List Char} (hr : r <+: after)
    (hafter : ∀ c ∈ after.head?, p c = false) (hall : ∀ c ∈ r, p c = true) : r = [] := by
  cases r with
  | nil => rfl
  | cons c r =>
    obtain ⟨tail, rfl⟩ := hr
    have hhead := hafter c rfl
    rw [hall c (by simp)] at hhead
    cases hhead

/-- Behind a run of characters of a kind at the end of a text that is cut where the run does not go on, no
character of this kind follows. -/
theorem not_of_mem_head? {p : Char → Bool} {run upto after : List Char} (hrun : run <:+ upto)
    (hne : run ≠ []) (hall : ∀ c ∈ run, p c = true)
    (hcut : ∀ a ∈ upto.getLast?, ∀ b ∈ after.head?, ¬ (p a = true ∧ p b = true)) :
    ∀ c ∈ after.head?, p c = false := by
  intro c hc
  have hlast := hall _ (List.getLast_mem hne)
  simpa [hlast] using hcut _ (Percent.getLast_mem_getLast? hrun hne) c hc

/-- Letters between characters that are none are a longest run. -/
theorem IsWord.isLongest {before run after : List Char} (h : IsWord run)
    (hbefore : ∀ c ∈ before.getLast?, c.isAlpha = false)
    (hafter : ∀ c ∈ after.head?, c.isAlpha = false) : IsLongest IsWord before run after where
  holds := h
  longest l r hl hr hword :=
    ⟨eq_nil_of_suffix hl hbefore fun c hc => hword.2 c (by simp [hc]),
      eq_nil_of_prefix hr hafter fun c hc => hword.2 c (by simp [hc])⟩

/-- The run of a number is a numeral. -/
theorem isNumeral_of_beginsNumber {c : Char} {rest : List Char} (h : Token.beginsNumber c rest = true) :
    IsNumeral (c :: rest.takeWhile Token.isNumeric) := by
  constructor
  · intro d hd
    rcases List.mem_cons.1 hd with rfl | hd
    · exact isNumeric_of_beginsNumber h
    · exact List.mem_takeWhile_imp hd
  · rcases beginsNumber_cases h with hc | ⟨rfl, d, tail, rfl, hd⟩
    · exact ⟨c, _, hc, .inl rfl⟩
    · have hnumeric : Token.isNumeric d = true := by simp [Token.isNumeric, hd]
      exact ⟨d, tail.takeWhile Token.isNumeric, hd, .inr (by simp [hnumeric])⟩

end Text

namespace Lexeme

open Text (IsNumeral IsLongest)

/-- The literals that are read are numerals. -/
theorem isNumeral_of_mem_read {s : List Char} {l : Literal} (h : number l ∈ read s) :
    IsNumeral l.text.toList := by
  fun_induction read s with
  | case1 => simp at h
  | case2 c rest hn ih =>
    rcases List.mem_cons.1 h with h | h
    · obtain rfl := Lexeme.number.inj h
      rw [Literal.text_ofRun, String.toList_ofList]
      exact Text.isNumeral_of_beginsNumber hn
    · exact ih h
  | case3 c rest hn ha ih =>
    rcases List.mem_cons.1 h with h | h
    · unfold ofWord at h
      split at h <;> cases h
    · exact ih h
  | case4 c rest hn ha ih =>
    rcases List.mem_append.1 h with h | h
    · have hchar : ofChar? c = some (number l) := Option.mem_toList.1 h
      unfold ofChar? at hchar
      split at hchar <;> cases hchar
    · exact ih h

/-- The last literal of a text is a longest numeral, if none of its characters goes on behind the text. -/
theorem LastNumber.isLongest {s front dots after : List Char} {l : Literal} (h : LastNumber s front dots l)
    (hl : IsNumeral l.text.toList) (hafter : ∀ c ∈ after.head?, Token.isNumeric c = false) :
    IsLongest IsNumeral (front ++ dots) l.text.toList after where
  holds := hl
  longest left right hleft hright hlonger := by
    obtain ⟨hnumeric, d, rest, hd, hbegin⟩ := hlonger
    refine ⟨?_, Text.eq_nil_of_prefix hright hafter fun c hc => hnumeric c (by simp [hc])⟩
    -- what is added in front consists of points, and with a point in front a numeral goes on with a digit
    have hpoints : left <:+ dots := by
      rcases List.suffix_or_suffix_of_suffix hleft (List.suffix_append front dots) with hdots | ⟨u, rfl⟩
      · exact hdots
      · obtain ⟨v, hv⟩ := hleft
        rw [← List.append_assoc] at hv
        have hu : u = [] := Text.eq_nil_of_suffix ⟨v, List.append_cancel_right hv⟩ h.front_end fun c hc =>
          hnumeric c (by simp [hc])
        rw [hu]
        exact List.suffix_refl _
    cases left with
    | nil => rfl
    | cons c left =>
      have hnone : d ≠ '.' := by
        rintro rfl
        cases hd
      have hpoint : ∀ b ∈ c :: left, b = '.' := fun b hb => h.points b (hpoints.subset hb)
      obtain rfl : c = '.' := hpoint c (by simp)
      -- the second character is a point as well: one that was added, or the one in front of the literal
      have hsecond : (left ++ l.text.toList ++ right).head? = some '.' := by
        cases left with
        | cons b left => exact congrArg some (hpoint b (by simp))
        | nil =>
          have hne : dots ≠ [] := by
            rintro rfl
            cases List.suffix_nil.1 hpoints
          have hhead := h.point.resolve_left hne
          rw [List.nil_append, List.head?_append, hhead]
          rfl
      rw [List.cons_append, List.cons_append] at hbegin
      rcases hbegin with hbegin | hbegin
      · exact absurd (List.cons.inj hbegin).1.symm hnone
      · rw [(List.cons.inj hbegin).2] at hsecond
        exact absurd (Option.some.inj hsecond) hnone

/-! ## The lexeme of a token -/

/-- A lexeme whose only token is an identifier is a name with its text. -/
theorem eq_name_of_tokens {l : Lexeme} {operandNext : Bool} {word : String}
    (h : l.tokens operandNext = [.identifier word]) : ∃ w : Word, l = name w ∧ w.text = word := by
  cases l with
  | name w => exact ⟨w, rfl, by simpa [tokens] using h⟩
  | sign op => cases op <;> cases operandNext <;> simp [tokens, Token.ofMinus] at h
  | _ => simp [tokens] at h

/-- A lexeme whose only token is a number is a literal with its text. -/
theorem eq_number_of_tokens {l : Lexeme} {operandNext : Bool} {digits : String} {value : Option Float}
    (h : l.tokens operandNext = [.number digits value]) : ∃ k : Literal, l = number k ∧ k.text = digits := by
  cases l with
  | number k => exact ⟨k, rfl, by simp_all [tokens]⟩
  | sign op => cases op <;> cases operandNext <;> simp [tokens, Token.ofMinus] at h
  | _ => simp [tokens] at h

end Lexeme

namespace Token

open Text (IsWord IsNumeral IsLongest)

/-- A token with this text comes from a longest run with the property `P`, and the tokens before it from what
stands before the run. -/
def StandsAt (P : List Char → Prop) (s : String) (before : List Token) (run : String) : Prop :=
  ∃ front after, s.toList = front ++ run.toList ++ after ∧ IsLongest P front run.toList after ∧
    tokenize (String.ofList front) = before

/-- The tokens of characters are those of their lexemes. -/
theorem tokenize_ofList (s : List Char) :
    tokenize (String.ofList s) = Lexeme.tokenList true (Lexeme.read s) := by
  rw [tokenize_eq, lexemes, String.toList_ofList]

/-- A text can be cut behind what a token is written as. No cut belongs to the two tokens of a minus before which
an operand is expected. -/
theorem exists_cut_of_token {s : String} {before after : List Token} {t : Token}
    (h : tokenize s = before ++ t :: after) (hunary : t.isUnary = false)
    (hzero : t.kind = .number → after.head?.any isUnary = false) :
    ∃ left l operandNext upto rest, Lexeme.Cut s.toList upto rest left l ∧
      l.tokens operandNext = [t] ∧ before = Lexeme.tokenList true left := by
  rw [tokenize_eq] at h
  obtain ⟨left, l, right, xs, ys, hread, htokens, rfl, rfl⟩ := Lexeme.exists_of_tokenList_eq_append h
  obtain ⟨rfl, -, hone⟩ | ⟨-, -, ⟨-, rfl, rfl⟩ | ⟨-, rfl, -⟩⟩ := Lexeme.tokens_eq_append_cons htokens
  · obtain ⟨upto, rest, hcut⟩ := Lexeme.exists_cut hread
    exact ⟨left, l, _, upto, rest, hcut, hone, List.append_nil _⟩
  · cases hzero rfl
  · cases hunary

/-- A name stands for a longest run of letters. -/
theorem standsAt_word {s : String} {before after : List Token} {word : String}
    (h : tokenize s = before ++ .identifier word :: after) : StandsAt IsWord s before word := by
  obtain ⟨left, l, operandNext, upto, rest, hcut, hone, rfl⟩ := exists_cut_of_token h rfl nofun
  obtain ⟨w, rfl, rfl⟩ := Lexeme.eq_name_of_tokens hone
  have hends : w.text.toList <:+ upto := hcut.ends.resolve_right nofun
  obtain ⟨front, rfl, hfront, hleft⟩ := Lexeme.exists_lastWord hends hcut.read_eq
  have hrest : ∀ c ∈ rest.head?, c.isAlpha = false :=
    Text.not_of_mem_head? hends w.ne_nil w.letters fun a ha b hb => (hcut.separate a ha b hb).1
  refine ⟨front, rest, hcut.text_eq, IsWord.isLongest ⟨w.ne_nil, w.letters⟩ hfront hrest, ?_⟩
  rw [tokenize_ofList, hleft]

/-- A number that is no zero of a minus stands for a longest numeral. -/
theorem standsAt_numeral {s : String} {before after : List Token} {digits : String} {value : Option Float}
    (h : tokenize s = before ++ .number digits value :: after)
    (hafter : after.head?.any isUnary = false) : StandsAt IsNumeral s before digits := by
  obtain ⟨left, l, operandNext, upto, rest, hcut, hone, rfl⟩ :=
    exists_cut_of_token h rfl fun _ => hafter
  obtain ⟨k, rfl, rfl⟩ := Lexeme.eq_number_of_tokens hone
  have hends : k.text.toList <:+ upto := hcut.ends.resolve_right nofun
  have hlast : (Lexeme.read upto).getLast? = some (.number k) := by
    rw [hcut.read_eq, List.getLast?_concat]
  obtain ⟨front, dots, hnumber⟩ := Lexeme.exists_lastNumber_of_suffix hends hlast
  have hrest : ∀ c ∈ rest.head?, isNumeric c = false :=
    Text.not_of_mem_head? hends k.text_ne_nil k.numeric fun a ha b hb => (hcut.separate a ha b hb).2
  have hnumeral : IsNumeral k.text.toList := Lexeme.isNumeral_of_mem_read (List.mem_of_getLast? hlast)
  have hleft : Lexeme.read front = left :=
    List.append_cancel_right (hnumber.read_eq.symm.trans hcut.read_eq)
  refine ⟨front ++ dots, rest, ?_, hnumber.isLongest hnumeral hrest, ?_⟩
  · rw [List.append_assoc front, ← hnumber.text_eq]
    exact hcut.text_eq
  · rw [tokenize_ofList, hnumber.read_front_append hnumber.points, hleft]

/-- A number has no value if it has several points, and otherwise the value of its text. -/
theorem value_of_mem_tokenize {s digits : String} {value : Option Float}
    (h : .number digits value ∈ tokenize s) :
    (value = none ↔ 1 < digits.toList.count '.') ∧
      (digits.toList.count '.' ≤ 1 → value = Numeral.float? digits) := by
  obtain ⟨l, operandNext, hmem⟩ := exists_of_mem_tokenize h
  rcases Lexeme.tokens_cases hmem with ⟨k, hk⟩ | ⟨op, hop, -⟩ | hparen | hparen | ⟨name, hname⟩
  · obtain ⟨rfl, rfl⟩ := Token.number.inj hk
    constructor
    · simp [Literal.value?]
    · intro hcount
      have hvalue : k.value? = some (Binary64.ofDecimal false (Literal.decimal k.text.toList)) := by
        rw [Literal.value?, if_neg (by omega)]
      rw [hvalue, k.float?_text hvalue]
  all_goals simp_all

/-- What the tokens of a text keep of it. The written ones are the text with other spellings replaced and what
belongs to nothing left out; each name is a longest run of letters, and each number that is no zero of a minus a
longest run of digits and points that begins as a number does; and a number has the value of its text, or none if
it has several points. -/
theorem transcript (s : String) :
    ((written (tokenize s)).flatMap fun t => t.text.toList) = Text.respelled [] s.toList ∧
      (∀ before word after, tokenize s = before ++ .identifier word :: after → StandsAt IsWord s before word) ∧
      (∀ before digits value after, tokenize s = before ++ .number digits value :: after →
        after.head?.any isUnary = false → StandsAt IsNumeral s before digits) ∧
      ∀ digits value, .number digits value ∈ tokenize s →
        (value = none ↔ 1 < digits.toList.count '.') ∧
          (digits.toList.count '.' ≤ 1 → value = Numeral.float? digits) := by
  refine ⟨?_, fun _ _ _ => standsAt_word, fun _ _ _ _ => standsAt_numeral, fun _ _ => value_of_mem_tokenize⟩
  have hfresh : Lexeme.Fresh [] s.toList := ⟨fun _ _ _ => rfl, fun _ _ _ => rfl⟩
  have htexts := Lexeme.texts_written true (lexemes s)
  rw [← tokenize_eq] at htexts
  rw [← List.flatMap_map, htexts, List.flatMap_map, Lexeme.respelled_eq hfresh]
  rfl

/-- A point that belongs to nothing in front of a number, the sign `x`, a name, a number with several points, and
a minus of each kind. -/
theorem transcript_mixed :
    ((written (tokenize "..5x sin÷1.2.3--7")).flatMap fun t => t.text.toList) =
        ".5*sin/1.2.3--7".toList ∧
      (StandsAt IsNumeral "..5x sin÷1.2.3--7" [] ".5" ∧
        StandsAt IsWord "..5x sin÷1.2.3--7" [ofLiteral ".5", .operator (.binary .mul)] "sin") ∧
      .number "1.2.3" none ∈ tokenize "..5x sin÷1.2.3--7" ∧
        ((none : Option Float) = none ↔ 1 < "1.2.3".toList.count '.') := by
  obtain ⟨hkept, hwords, hnumbers, hvalues⟩ := transcript "..5x sin÷1.2.3--7"
  have htokens : tokenize "..5x sin÷1.2.3--7" =
      [ofLiteral ".5", .operator (.binary .mul), .identifier "sin", .operator (.binary .div),
        .number "1.2.3" none, .operator (.binary .sub), ofLiteral "0", .operator .unaryMinus,
        ofLiteral "7"] := by
    decide +kernel
  have hsplit := hwords [ofLiteral ".5", .operator (.binary .mul)] "sin" _ htokens
  have hmem : .number "1.2.3" none ∈ tokenize "..5x sin÷1.2.3--7" := by
    rw [htokens]
    simp
  exact ⟨hkept.trans (by decide +kernel), ⟨hnumbers [] ".5" _ _ htokens rfl, hsplit⟩, hmem,
    (hvalues _ _ hmem).1⟩

end Token

end DeskCalculator
