/-
Maximal munch on lists of characters.

This file says what the words of a text are, without branches and without a lexer.  At the start of
the text the lexeme wins that takes most, and the first one of those that take the same.  Its word is
cut off, and the rest of the text is cut in the same way.  Cutting comes to an end at the end of the
text, or before that at a place where no lexeme takes anything.

The main definitions are

* `Munch.winner`: the lexeme that wins, of which `Munch.winner_eq_some_iff` says what it means;
* `Munch.words`: all the words of a text, and the place at which it cannot be cut any further;
* `Munch.tokens` and `Munch.halt`: the words that are kept, and what comes after them.

`Munch.words_covers` and `Munch.words_split` say that the words lie side by side in the text.
-/
import ScriptLang.Token
import ScriptLang.Proofs.Rule.Refinement
import Mathlib.Data.List.MinMax

namespace ScriptLang

/-- How many characters a lexeme takes at the start of a text.  It takes none if it does not match. -/
def Lexeme.reach (x : Lexeme) (s : List Char) : Nat :=
  if (x.rule.scan s).1 then (x.rule.scan s).2 else 0

lemma Lexeme.reach_le (x : Lexeme) (s : List Char) : x.reach s ≤ s.length := by
  unfold reach
  split
  · exact x.rule.scan_le s
  · exact Nat.zero_le _

namespace Munch

/-! ## The winner -/

/-- The lexeme that takes most at the start of a text.  A lexeme that takes nothing is no
candidate. -/
def winner (lexemes : List Lexeme) (s : List Char) : Option Lexeme :=
  (lexemes.filter fun x => 0 < x.reach s).argmax fun x => x.reach s

/-- At the start of `s` the lexeme `x` takes something.  It takes more than those that were registered
before it, and not less than those that were registered after it. -/
def Wins (lexemes : List Lexeme) (s : List Char) (x : Lexeme) : Prop :=
  0 < x.reach s ∧ ∃ before after, lexemes = before ++ x :: after ∧
    (∀ y ∈ before, y.reach s < x.reach s) ∧ ∀ y ∈ after, y.reach s ≤ x.reach s

variable {lexemes : List Lexeme} {s : List Char} {x y : Lexeme}

lemma winner_cons (y : Lexeme) (lexemes : List Lexeme) (s : List Char) :
    winner (y :: lexemes) s =
      if 0 < y.reach s then
        match winner lexemes s with
        | none => some y
        | some x => if y.reach s < x.reach s then some x else some y
      else winner lexemes s := by
  by_cases hy : 0 < y.reach s
  · rw [if_pos hy, winner, List.filter_cons_of_pos (by simpa using hy), List.argmax_cons, ← winner]
    cases winner lexemes s <;> rfl
  · rw [if_neg hy, winner, List.filter_cons_of_neg (by simpa using hy)]
    rfl

/-- Nobody wins if nobody takes anything. -/
lemma winner_eq_none_iff : winner lexemes s = none ↔ ∀ x ∈ lexemes, x.reach s = 0 := by
  simp [winner, List.argmax_eq_none, List.filter_eq_nil_iff]

lemma Wins.mem (h : Wins lexemes s x) : x ∈ lexemes := by
  obtain ⟨-, before, after, rfl, -, -⟩ := h
  simp

lemma Wins.le (h : Wins lexemes s x) (hy : y ∈ lexemes) : y.reach s ≤ x.reach s := by
  obtain ⟨-, before, after, rfl, hbefore, hafter⟩ := h
  rcases List.mem_append.mp hy with hy | hy
  · exact Nat.le_of_lt (hbefore y hy)
  · rcases List.mem_cons.mp hy with rfl | hy
    · exact Nat.le_refl _
    · exact hafter y hy

/-- Either the first lexeme wins, or one of the others does and takes more than the first. -/
lemma wins_cons_iff :
    Wins (y :: lexemes) s x ↔
      (x = y ∧ 0 < y.reach s ∧ ∀ z ∈ lexemes, z.reach s ≤ y.reach s) ∨
        (y.reach s < x.reach s ∧ Wins lexemes s x) := by
  constructor
  · rintro ⟨hpos, before, after, hsplit, hbefore, hafter⟩
    cases before with
    | nil =>
      obtain ⟨rfl, rfl⟩ : y = x ∧ lexemes = after := by simpa using hsplit
      exact Or.inl ⟨rfl, hpos, hafter⟩
    | cons z before =>
      obtain ⟨rfl, rfl⟩ : y = z ∧ lexemes = before ++ x :: after := by simpa using hsplit
      refine Or.inr ⟨hbefore y (by simp), hpos, before, after, rfl, ?_, hafter⟩
      exact fun w hw => hbefore w (List.mem_cons_of_mem _ hw)
  · rintro (⟨rfl, hpos, hle⟩ | ⟨hlt, hpos, before, after, rfl, hbefore, hafter⟩)
    · exact ⟨hpos, [], lexemes, rfl, by simp, hle⟩
    · refine ⟨hpos, y :: before, after, rfl, ?_, hafter⟩
      intro w hw
      rcases List.mem_cons.mp hw with rfl | hw
      · exact hlt
      · exact hbefore w hw

/-- There is one winner at most. -/
lemma Wins.unique (hx : Wins lexemes s x) (hy : Wins lexemes s y) : x = y := by
  induction lexemes with
  | nil => simp [Wins] at hx
  | cons z lexemes ih =>
    rcases wins_cons_iff.mp hx with ⟨rfl, -, hxle⟩ | ⟨hzx, hx'⟩
    · rcases wins_cons_iff.mp hy with ⟨rfl, -, -⟩ | ⟨hxy, hy'⟩
      · rfl
      · exact absurd (hxle y hy'.mem) (Nat.not_le_of_lt hxy)
    · rcases wins_cons_iff.mp hy with ⟨rfl, -, hyle⟩ | ⟨-, hy'⟩
      · exact absurd (hyle x hx'.mem) (Nat.not_le_of_lt hzx)
      · exact ih hx' hy'

lemma wins_of_winner (h : winner lexemes s = some x) : Wins lexemes s x := by
  induction lexemes generalizing x with
  | nil => simp [winner] at h
  | cons y lexemes ih =>
    rw [winner_cons] at h
    by_cases hy : 0 < y.reach s
    · rw [if_pos hy] at h
      cases hw : winner lexemes s with
      | none =>
        obtain rfl : y = x := by simpa [hw] using h
        refine wins_cons_iff.mpr (Or.inl ⟨rfl, hy, fun z hz => ?_⟩)
        rw [winner_eq_none_iff.mp hw z hz]
        exact Nat.zero_le _
      | some z =>
        simp only [hw] at h
        by_cases hlt : y.reach s < z.reach s
        · obtain rfl : z = x := by simpa [hlt] using h
          exact wins_cons_iff.mpr (Or.inr ⟨hlt, ih hw⟩)
        · obtain rfl : y = x := by simpa [hlt] using h
          have hle : z.reach s ≤ y.reach s := Nat.not_lt.mp hlt
          exact wins_cons_iff.mpr
            (Or.inl ⟨rfl, hy, fun w hm => Nat.le_trans ((ih hw).le hm) hle⟩)
    · rw [if_neg hy] at h
      refine wins_cons_iff.mpr (Or.inr ⟨?_, ih h⟩)
      have hpos := (ih h).1
      omega

/-- **The winner** takes most, and it is the first one that takes so much. -/
lemma winner_eq_some_iff : winner lexemes s = some x ↔ Wins lexemes s x := by
  refine ⟨wins_of_winner, fun hx => ?_⟩
  cases hw : winner lexemes s with
  | none => exact absurd (winner_eq_none_iff.mp hw x hx.mem) (Nat.ne_of_gt hx.1)
  | some y => rw [(wins_of_winner hw).unique hx]

/-! ## Words -/

/-- The words of a text from the offset `p` on, and the place at which no lexeme takes anything,
unless the words go on to the end of the text. -/
def words (lexemes : List Lexeme) (text : List Char) (p : Nat) : List Token × Option Position :=
  if p < text.length then
    match h : winner lexemes (text.drop p) with
    | none => ([], some (Position.start.advanceOver (text.take p)))
    | some x =>
      have : 0 < x.reach (text.drop p) := (wins_of_winner h).1
      let (ws, stuck) := words lexemes text (p + x.reach (text.drop p))
      (⟨x, (text.drop p).take (x.reach (text.drop p)), Position.start.advanceOver (text.take p)⟩ :: ws,
        stuck)
  else ([], none)
termination_by text.length - p

/-- Whether a word is not one of those that are dropped. -/
def kept (t : Token) : Bool := !t.lexeme.skippable

/-- The words from the offset `p` on that are kept. -/
def tokens (lexemes : List Lexeme) (text : List Char) (p : Nat) : List Token :=
  (words lexemes text p).1.filter kept

/-- What comes after the words: nothing, or a failure. -/
def halt (lexemes : List Lexeme) (text : List Char) (p : Nat) : Option LexicalError :=
  (words lexemes text p).2.map .noLexeme

variable {text : List Char} {p : Nat}

lemma words_of_end (hp : p = text.length) : words lexemes text p = ([], none) := by
  rw [words, if_neg (by omega)]

lemma words_of_stuck (hp : p < text.length) (h : winner lexemes (text.drop p) = none) :
    words lexemes text p = ([], some (Position.start.advanceOver (text.take p))) := by
  rw [words, if_pos hp]
  split
  · rfl
  · rw [h] at *
    contradiction

/-- A winner takes characters that are there. -/
lemma le_length_of_winner (h : winner lexemes (text.drop p) = some x) :
    p < text.length ∧ p + x.reach (text.drop p) ≤ text.length := by
  have hpos := (wins_of_winner h).1
  have hle := x.reach_le (text.drop p)
  rw [List.length_drop] at hle
  omega

lemma words_of_winner (h : winner lexemes (text.drop p) = some x) :
    words lexemes text p =
      (⟨x, (text.drop p).take (x.reach (text.drop p)), Position.start.advanceOver (text.take p)⟩ ::
          (words lexemes text (p + x.reach (text.drop p))).1,
        (words lexemes text (p + x.reach (text.drop p))).2) := by
  rw [words, if_pos (le_length_of_winner h).1]
  split
  · rw [h] at *
    contradiction
  · rename_i z hz
    obtain rfl : z = x := Option.some.inj (hz.symm.trans h)
    rfl

/-- At the end of the text there are no tokens, and nothing comes after them. -/
lemma tokens_of_end (hp : p = text.length) :
    tokens lexemes text p = [] ∧ halt lexemes text p = none := by
  simp [tokens, halt, words_of_end hp]

lemma tokens_of_stuck (hp : p < text.length) (h : winner lexemes (text.drop p) = none) :
    tokens lexemes text p = [] ∧
      halt lexemes text p = some (.noLexeme (Position.start.advanceOver (text.take p))) := by
  simp [tokens, halt, words_of_stuck hp h]

/-- A word is put before the tokens that follow it, unless it is dropped. -/
lemma tokens_of_winner (h : winner lexemes (text.drop p) = some x) :
    tokens lexemes text p =
        (if x.skippable then tokens lexemes text (p + x.reach (text.drop p))
        else ⟨x, (text.drop p).take (x.reach (text.drop p)), Position.start.advanceOver (text.take p)⟩ ::
          tokens lexemes text (p + x.reach (text.drop p))) ∧
      halt lexemes text p = halt lexemes text (p + x.reach (text.drop p)) := by
  cases hskip : x.skippable with
  | true => simp [tokens, halt, words_of_winner h, kept, hskip]
  | false => simp [tokens, halt, words_of_winner h, kept, hskip]

/-- Each word takes a character. -/
lemma length_words_le (lexemes : List Lexeme) (text : List Char) (p : Nat) :
    (words lexemes text p).1.length ≤ text.length - p := by
  fun_induction words lexemes text p with
  | case1 p hp h => exact Nat.zero_le _
  | case2 p hp x h hpos ws stuck hrec ih =>
    simp only [hrec] at ih
    simp only [List.length_cons]
    have hle := (le_length_of_winner h).2
    omega
  | case3 p hp => exact Nat.zero_le _

/-- Words that go on to the end of the text make it up. -/
lemma words_covers (h : (words lexemes text p).2 = none) :
    (words lexemes text p).1.flatMap Token.text = text.drop p := by
  fun_induction words lexemes text p with
  | case1 p hp hw => simp at h
  | case2 p hp x hw hpos ws stuck hrec ih =>
    simp only [hrec] at ih
    simp only [List.flatMap_cons, ih h]
    rw [← List.drop_drop, List.take_append_drop]
  | case3 p hp => simp; omega

lemma words_eq_cons {t : Token} {ts : List Token} (h : (words lexemes text p).1 = t :: ts) :
    ∃ x, winner lexemes (text.drop p) = some x ∧
      t = ⟨x, (text.drop p).take (x.reach (text.drop p)), Position.start.advanceOver (text.take p)⟩ ∧
      ts = (words lexemes text (p + x.reach (text.drop p))).1 := by
  by_cases hp : p < text.length
  · cases hw : winner lexemes (text.drop p) with
    | none => simp [words_of_stuck hp hw] at h
    | some x =>
      rw [words_of_winner hw] at h
      obtain ⟨rfl, rfl⟩ := List.cons.inj h
      exact ⟨x, rfl, rfl, rfl⟩
  · rw [words, if_neg hp] at h
    cases h

/-- Each word stands where the words before it end, and it is the word of the lexeme that wins
there. -/
lemma words_split {before after : List Token} {t : Token}
    (h : (words lexemes text p).1 = before ++ t :: after) :
    ∃ q, text.take q = text.take p ++ before.flatMap Token.text ∧
      winner lexemes (text.drop q) = some t.lexeme ∧
      t.text = (text.drop q).take (t.lexeme.reach (text.drop q)) ∧
      t.place = Position.start.advanceOver (text.take q) := by
  induction before generalizing p with
  | nil =>
    obtain ⟨x, hw, rfl, -⟩ := words_eq_cons h
    exact ⟨p, by simp, hw, rfl, rfl⟩
  | cons u before ih =>
    obtain ⟨x, hw, rfl, hts⟩ := words_eq_cons h
    obtain ⟨q, htake, hq⟩ := ih hts.symm
    refine ⟨q, ?_, hq⟩
    rw [htake, List.take_add, List.flatMap_cons, List.append_assoc]

/-! ## Cutting a whole text -/

/-- The tokens `ts`, unless a failure comes after them. -/
def whole (ts : List Token) : Option LexicalError → Except LexicalError (List Token)
  | none => .ok ts
  | some e => .error e

/-- The tokens of a text, if it can be cut to its end. -/
def munch (lexemes : List Lexeme) (text : List Char) : Except LexicalError (List Token) :=
  whole (tokens lexemes text 0) (halt lexemes text 0)

-- of two lexemes that take the same the first one wins, and one that takes more wins over both
example :
    (munch [⟨"if", Rule.literal "if", false⟩, ⟨"word", Rule.some (.range 'a' 'z'), false⟩,
        ⟨"space", Rule.chars " ", true⟩] "if iff".toList).toOption.map (List.map Token.kind) =
      some ["if", "word"] := by
  decide +kernel

/-- The words `ws` lie side by side in a text and make it up. -/
structure Tiles (lexemes : List Lexeme) (text : List Char) (ws : List Token) : Prop where
  covers : ws.flatMap Token.text = text
  nonempty : ∀ t ∈ ws, t.text ≠ []
  /-- A word is the word of the lexeme that wins at its start. -/
  won : ∀ before t after, ws = before ++ t :: after →
    Wins lexemes (t.text ++ after.flatMap Token.text) t.lexeme ∧
      t.text.length = t.lexeme.reach (t.text ++ after.flatMap Token.text)
  place : ∀ before t after, ws = before ++ t :: after →
    t.place = Position.start.advanceOver (before.flatMap Token.text)
  stop : ∀ before t after, ws = before ++ t :: after →
    t.stop = Position.start.advanceOver (before.flatMap Token.text ++ t.text)

/-- The offsets at which a word starts or the last word ends. -/
inductive Reached (lexemes : List Lexeme) (text : List Char) : Nat → Prop
  | start : Reached lexemes text 0
  | word {p : Nat} {x : Lexeme} : Reached lexemes text p → Wins lexemes (text.drop p) x →
      Reached lexemes text (p + x.reach (text.drop p))

lemma tiles_words (h : (words lexemes text 0).2 = none) :
    Tiles lexemes text (words lexemes text 0).1 := by
  have hcovers : (words lexemes text 0).1.flatMap Token.text = text := words_covers h
  have hword : ∀ before t after, (words lexemes text 0).1 = before ++ t :: after →
      Wins lexemes (t.text ++ after.flatMap Token.text) t.lexeme ∧
        t.text = (t.text ++ after.flatMap Token.text).take
          (t.lexeme.reach (t.text ++ after.flatMap Token.text)) ∧
        t.place = Position.start.advanceOver (before.flatMap Token.text) := by
    intro before t after hws
    obtain ⟨q, htake, hwin, htext, hplace⟩ := words_split hws
    rw [List.take_zero, List.nil_append] at htake
    -- what is not before the word is the word and what comes after it
    have hdrop : text.drop q = t.text ++ after.flatMap Token.text := by
      have hsplit : text.take q ++ text.drop q =
          before.flatMap Token.text ++ (t.text ++ after.flatMap Token.text) := by
        rw [List.take_append_drop, ← hcovers, hws, List.flatMap_append, List.flatMap_cons]
      rw [htake] at hsplit
      exact List.append_cancel_left hsplit
    rw [hdrop] at hwin htext
    rw [htake] at hplace
    exact ⟨winner_eq_some_iff.mp hwin, htext, hplace⟩
  have hlength : ∀ before t after, (words lexemes text 0).1 = before ++ t :: after →
      t.text.length = t.lexeme.reach (t.text ++ after.flatMap Token.text) := by
    intro before t after hws
    have hlen := congrArg List.length (hword before t after hws).2.1
    rw [List.length_take] at hlen
    have hle := t.lexeme.reach_le (t.text ++ after.flatMap Token.text)
    omega
  constructor
  · exact hcovers
  · intro t ht hnil
    obtain ⟨before, after, hws⟩ := List.append_of_mem ht
    have hpos := (hword before t after hws).1.1
    rw [← hlength before t after hws, hnil] at hpos
    exact Nat.lt_irrefl 0 hpos
  · exact fun before t after hws => ⟨(hword before t after hws).1, hlength before t after hws⟩
  · exact fun before t after hws => (hword before t after hws).2.2
  · intro before t after hws
    rw [Token.stop, (hword before t after hws).2.2, Position.advanceOver_append]

/-- Nothing changes in what comes after the words if cutting starts at an offset that is reached. -/
lemma Reached.words_eq (h : Reached lexemes text p) :
    (words lexemes text p).2 = (words lexemes text 0).2 := by
  induction h with
  | start => rfl
  | word _ hwins ih => rw [← ih, words_of_winner (winner_eq_some_iff.mpr hwins)]

/-- If the words do not go on to the end, an offset is reached at which no lexeme takes anything. -/
lemma Reached.exists_stuck (h : Reached lexemes text p) {place : Position}
    (hstuck : (words lexemes text p).2 = some place) :
    ∃ q, Reached lexemes text q ∧ q < text.length ∧ winner lexemes (text.drop q) = none ∧
      place = Position.start.advanceOver (text.take q) := by
  fun_induction words lexemes text p with
  | case1 p hp hw => exact ⟨p, h, hp, hw, by simpa using hstuck.symm⟩
  | case2 p hp x hw hpos ws stuck hrec ih =>
    simp only [hrec] at ih
    exact ih (h.word (winner_eq_some_iff.mp hw)) hstuck
  | case3 p hp => simp at hstuck

/-- If a text can be cut to its end, its tokens are the words of a tiling that are kept. -/
lemma tiles_of_munch {ts : List Token} (h : munch lexemes text = .ok ts) :
    ∃ ws, Tiles lexemes text ws ∧ ts = ws.filter kept := by
  cases hhalt : halt lexemes text 0 with
  | none =>
    rw [munch, hhalt] at h
    refine ⟨_, tiles_words (Option.map_eq_none_iff.mp hhalt), ?_⟩
    exact (Except.ok.inj h).symm
  | some e =>
    rw [munch, hhalt] at h
    cases h

/-- A text cannot be cut to its end if an offset before the end is reached at which no lexeme takes
anything, and then this offset is the place of the failure. -/
lemma munch_eq_error_iff {e : LexicalError} :
    munch lexemes text = .error e ↔
      ∃ p, Reached lexemes text p ∧ p < text.length ∧ (∀ x ∈ lexemes, x.reach (text.drop p) = 0) ∧
        e = .noLexeme (Position.start.advanceOver (text.take p)) := by
  have hmunch : munch lexemes text = .error e ↔ halt lexemes text 0 = some e := by
    cases hhalt : halt lexemes text 0 with
    | none => simp [munch, whole, hhalt]
    | some e => simp [munch, whole, hhalt]
  rw [hmunch, halt, Option.map_eq_some_iff]
  constructor
  · rintro ⟨place, hstuck, rfl⟩
    obtain ⟨p, hreached, hp, hw, rfl⟩ := Reached.start.exists_stuck hstuck
    exact ⟨p, hreached, hp, winner_eq_none_iff.mp hw, rfl⟩
  · rintro ⟨p, hreached, hp, hzero, rfl⟩
    refine ⟨_, ?_, rfl⟩
    rw [← hreached.words_eq, words_of_stuck hp (winner_eq_none_iff.mpr hzero)]

end Munch

end ScriptLang
