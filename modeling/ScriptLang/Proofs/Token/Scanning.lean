/-
The lexer of the scripting language is a scanner.

Nine rules compete at each point of a text.  Which of them can take anything is told by the first
character, so that at most two of them are left: keywords and names, comments and operators, operators and
punctuation.  The winner is the piece that the scanner cuts off (`Scanner.map_winner_eq_piece`), and so the
whole text is cut in the same way.

The main result is `Lexer.wordsOf_eq_scan`.
-/
import Mathlib.Data.Bool.AllAny
import ScriptLang.Proofs.Token.Lexing
import ScriptLang.Proofs.Token.Scanner

namespace ScriptLang

lemma Lexeme.reach_eq (x : Lexeme) (s : List Char) : x.reach s = (x.rule.taken s).getD 0 := by
  unfold reach Rule.taken
  split <;> rfl

namespace Scanner

open Munch

variable {c : Char} {s : List Char}

/-! ## Kinds of characters -/

/-- A letter is no digit. -/
lemma isDigit_of_isLetter (h : isLetter c = true) : c.isDigit = false := by
  rw [Bool.eq_false_iff]
  intro hdigit
  obtain ⟨hlow, hhigh⟩ : 48 ≤ c.val.toNat ∧ c.val.toNat ≤ 57 :=
    (Bool.and_eq_true_iff.mp hdigit).imp of_decide_eq_true of_decide_eq_true
  simp only [isLetter, Bool.or_eq_true, decide_eq_true_eq] at h
  rcases h with ((halpha | rfl) | rfl)
  · rcases Bool.or_eq_true_iff.mp halpha with hupper | hlower
    · obtain ⟨habove, -⟩ : 65 ≤ c.val.toNat ∧ c.val.toNat ≤ 90 := of_decide_eq_true hupper
      omega
    · obtain ⟨habove, -⟩ : 97 ≤ c.val.toNat ∧ c.val.toNat ≤ 122 :=
        (Bool.and_eq_true_iff.mp hlower).imp of_decide_eq_true of_decide_eq_true
      omega
  · cases hdigit
  · cases hdigit

lemma of_isBlank (h : isBlank c = true) :
    isLetter c = false ∧ c.isDigit = false ∧ isQuote c = false ∧ '/' ≠ c := by
  have hall : ∀ c ∈ [' ', '\t', '\r', '\n'],
      isLetter c = false ∧ c.isDigit = false ∧ isQuote c = false ∧ '/' ≠ c :=
    List.all_iff_forall_prop.mp (by decide)
  exact hall c (List.contains_iff_mem.mp h)

lemma of_isQuote (h : isQuote c = true) :
    isBlank c = false ∧ isLetter c = false ∧ c.isDigit = false ∧ '/' ≠ c := by
  have hall : ∀ c ∈ ['"', '\''],
      isBlank c = false ∧ isLetter c = false ∧ c.isDigit = false ∧ '/' ≠ c :=
    List.all_iff_forall_prop.mp (by decide)
  exact hall c (by simpa [isQuote] using h)

lemma of_isLetter (h : isLetter c = true) :
    isBlank c = false ∧ c.isDigit = false ∧ isQuote c = false ∧ '/' ≠ c := by
  refine ⟨?_, isDigit_of_isLetter h, ?_, ?_⟩
  · exact Bool.eq_false_iff.mpr fun hblank => by simp [(of_isBlank hblank).1] at h
  · exact Bool.eq_false_iff.mpr fun hquote => by simp [(of_isQuote hquote).2.1] at h
  · rintro rfl
    cases h

lemma of_isDigit (h : c.isDigit = true) :
    isBlank c = false ∧ isLetter c = false ∧ isQuote c = false ∧ '/' ≠ c := by
  refine ⟨?_, ?_, ?_, ?_⟩
  · exact Bool.eq_false_iff.mpr fun hblank => by simp [(of_isBlank hblank).2.1] at h
  · exact Bool.eq_false_iff.mpr fun hletter => by simp [isDigit_of_isLetter hletter] at h
  · exact Bool.eq_false_iff.mpr fun hquote => by simp [(of_isQuote hquote).2.2.1] at h
  · rintro rfl
    cases h

/-- A character with which white space, a name, a number or a string starts. -/
def opens (c : Char) : Bool := isBlank c || isLetter c || c.isDigit || isQuote c

/-! ## Texts that are looked for -/

/-- What is taken is the length of one of the texts, and none of the others is longer. -/
lemma longest_eq_some_iff {texts : List String} {n : Nat} :
    longest texts s = some n ↔
      (∃ text ∈ texts, text.toList <+: s ∧ text.length = n) ∧
        ∀ text ∈ texts, text.toList <+: s → text.length ≤ n := by
  simp only [longest, List.max?_eq_some_iff, List.mem_map, List.mem_filter, List.isPrefixOf_iff_prefix,
    and_assoc]
  refine and_congr_right fun _ => ⟨?_, ?_⟩
  · exact fun h text htext hstart => h _ ⟨text, htext, hstart, rfl⟩
  · rintro h - ⟨text, htext, hstart, rfl⟩
    exact h text htext hstart

lemma longest_eq_none_iff {texts : List String} :
    longest texts s = none ↔ ∀ text ∈ texts, ¬ text.toList <+: s := by
  simp [longest, List.max?_eq_none_iff]

/-- None of the texts is there if none of them starts with the first character. -/
lemma longest_eq_none_of_head {texts : List String} {test : Char → Bool}
    (htexts : ∀ text ∈ texts, text.toList.head?.any test = true) (hc : test c = false) :
    longest texts (c :: s) = none := by
  rw [longest_eq_none_iff]
  intro text htext hstart
  have hhead := htexts text htext
  cases hlist : text.toList with
  | nil => simp [hlist] at hhead
  | cons d ds =>
    rw [hlist] at hstart hhead
    rw [(List.cons_prefix_cons.mp hstart).1, List.head?_cons, Option.any_some, hc] at hhead
    cases hhead

lemma longest_keywords (hc : isLetter c = false) : longest Grammar.keywords (c :: s) = none :=
  longest_eq_none_of_head (by decide) hc

lemma longest_operators (hc : opens c = true) : longest Grammar.operators (c :: s) = none := by
  have hheads : ∀ text ∈ Grammar.operators, text.toList.head?.any (!opens ·) = true := by decide
  exact longest_eq_none_of_head hheads (by simpa using hc)

/-- The operators that start like a comment are short. -/
lemma longest_operators_slash (s : List Char) : (longest Grammar.operators ('/' :: s)).getD 0 ≤ 2 := by
  have hshort : ∀ text ∈ Grammar.operators, text.toList.head? = some '/' → text.length ≤ 2 := by decide
  cases h : longest Grammar.operators ('/' :: s) with
  | none => simp
  | some n =>
    obtain ⟨⟨text, htext, hstart, rfl⟩, -⟩ := longest_eq_some_iff.mp h
    refine hshort text htext ?_
    have hne : ∀ text ∈ Grammar.operators, text.toList ≠ [] := by decide
    obtain ⟨d, ds, hlist⟩ := List.exists_cons_of_ne_nil (hne text htext)
    rw [hlist] at hstart ⊢
    rw [(List.cons_prefix_cons.mp hstart).1, List.head?_cons]

lemma notMem_punctuation (hc : opens c = true) : c ∉ Grammar.punctuation.toList := by
  have hall : ∀ c ∈ Grammar.punctuation.toList, opens c = false :=
    List.all_iff_forall_prop.mp (by decide)
  intro hmem
  rw [hall c hmem] at hc
  cases hc

/-- A keyword at the start of a text is a part of the name there. -/
lemma prefix_takeWhile_of_keyword {text : String} (htext : text ∈ Grammar.keywords)
    (hstart : text.toList <+: s) : text.toList <+: s.takeWhile isNamePart := by
  have hall : ∀ text ∈ Grammar.keywords, text.toList.all isNamePart = true := by decide
  obtain ⟨u, rfl⟩ := hstart
  rw [List.takeWhile_append_of_pos (List.all_eq_true.mp (hall text htext))]
  exact List.prefix_append _ _

/-- The longest keyword is the whole name if this is reserved, and shorter otherwise. -/
lemma longest_keywords_getD (s : List Char) :
    if String.ofList (s.takeWhile isNamePart) ∈ Grammar.keywords then
      longest Grammar.keywords s = some (runOf isNamePart s)
    else (longest Grammar.keywords s).getD 0 < runOf isNamePart s ∨ runOf isNamePart s = 0 := by
  split
  next hname =>
    refine longest_eq_some_iff.mpr ⟨⟨_, hname, ?_, ?_⟩, ?_⟩
    · rw [String.toList_ofList]
      exact List.takeWhile_prefix _
    · simp [runOf]
    · intro text htext hstart
      simpa only [String.length_toList, runOf] using
        (prefix_takeWhile_of_keyword htext hstart).length_le
  next hname =>
    cases h : longest Grammar.keywords s with
    | none => simp; omega
    | some n =>
      obtain ⟨⟨text, htext, hstart, rfl⟩, -⟩ := longest_eq_some_iff.mp h
      left
      have hpre := prefix_takeWhile_of_keyword htext hstart
      have hle := hpre.length_le
      rw [String.length_toList] at hle
      refine Nat.lt_of_le_of_ne hle fun heq => hname ?_
      have hsame := hpre.eq_of_length (by rw [String.length_toList]; exact heq)
      rwa [← hsame, String.ofList_toList]

/-! ## The winner -/

section Reach

open Grammar

@[simp]
lemma reach_whitespace (s : List Char) :
    (Lexeme.mk "whitespace" whitespace true).reach s = runOf isBlank s := by
  rw [Lexeme.reach_eq, taken_whitespace]
  split <;> simp [*]

@[simp]
lemma reach_lineComment (s : List Char) :
    (Lexeme.mk "line-comment" lineComment true).reach s =
      if ['/', '/'] <+: s then 2 + runOf (fun c => c ≠ '\n') (s.drop 2) else 0 := by
  rw [Lexeme.reach_eq, taken_lineComment]
  split <;> rfl

@[simp]
lemma reach_blockComment (s : List Char) :
    (Lexeme.mk "block-comment" blockComment true).reach s =
      if ['/', '*'] <+: s then ((closing (s.drop 2)).map (2 + ·)).getD 0 else 0 := by
  rw [Lexeme.reach_eq, taken_blockComment]
  split <;> rfl

@[simp]
lemma reach_keyword (s : List Char) :
    (Lexeme.mk "keyword" keyword false).reach s = (longest keywords s).getD 0 := by
  rw [Lexeme.reach_eq, taken_keyword]

@[simp]
lemma reach_identifier (c : Char) (s : List Char) :
    (Lexeme.mk "identifier" identifier false).reach (c :: s) =
      if isLetter c then runOf isNamePart (c :: s) else 0 := by
  rw [Lexeme.reach_eq, taken_identifier]
  split <;> rfl

@[simp]
lemma reach_number (c : Char) (s : List Char) :
    (Lexeme.mk "number" Grammar.number false).reach (c :: s) =
      if c.isDigit then number (c :: s) else 0 := by
  rw [Lexeme.reach_eq, taken_number, runOf_cons]
  cases c.isDigit <;> simp

@[simp]
lemma reach_string (c : Char) (s : List Char) :
    (Lexeme.mk "string" string false).reach (c :: s) =
      if isQuote c then ((quoted c s).map (1 + ·)).getD 0 else 0 := by
  rw [Lexeme.reach_eq, taken_string]
  split <;> rfl

@[simp]
lemma reach_operator (s : List Char) :
    (Lexeme.mk "operator" operator false).reach s = (longest operators s).getD 0 := by
  rw [Lexeme.reach_eq, taken_operator]

@[simp]
lemma reach_punctuation (c : Char) (s : List Char) :
    (Lexeme.mk "punctuation" (Rule.chars punctuation) false).reach (c :: s) =
      if c ∈ punctuation.toList then 1 else 0 := by
  rw [Lexeme.reach_eq, taken_punctuation]
  split <;> rfl

end Reach

/-- What a lexeme cuts off a text. -/
def cut (x : Lexeme) (s : List Char) : Piece := ⟨if x.skippable then none else some x.id, x.reach s⟩

lemma wins_whitespace (hc : isBlank c = true) :
    Wins Grammar.lexemes (c :: s) ⟨"whitespace", Grammar.whitespace, true⟩ := by
  obtain ⟨hletter, hdigit, hquote, hslash⟩ := of_isBlank hc
  have hopens : opens c = true := by simp [opens, hc]
  refine ⟨?_, [], _, rfl, by simp, ?_⟩
  · simp [runOf_cons, hc]
  · simp [longest_keywords hletter, longest_operators hopens, notMem_punctuation hopens, hletter, hdigit,
      hquote, hslash]

/-- A comment wins over the operators that start like it. -/
lemma wins_lineComment (s : List Char) :
    Wins Grammar.lexemes ('/' :: '/' :: s) ⟨"line-comment", Grammar.lineComment, true⟩ := by
  obtain ⟨n, hreach⟩ : ∃ n,
      (Lexeme.mk "line-comment" Grammar.lineComment true).reach ('/' :: '/' :: s) = n + 2 :=
    ⟨runOf (fun c => c ≠ '\n') s, by simp [Nat.add_comm]⟩
  have hop := Nat.le_trans (longest_operators_slash ('/' :: s)) (Nat.le_add_left 2 n)
  have hkey := longest_keywords (c := '/') (s := '/' :: s) rfl
  have hmem : '/' ∉ Grammar.punctuation.toList := by decide
  refine ⟨by omega, _ :: [], _, rfl, ?_, ?_⟩
  · simp [hreach, runOf_cons, isBlank]
  · simp [hreach, hkey, hop, isLetter, isQuote, hmem]

lemma wins_blockComment {s : List Char} {n : Nat} (hn : closing s = some n) :
    Wins Grammar.lexemes ('/' :: '*' :: s) ⟨"block-comment", Grammar.blockComment, true⟩ := by
  have hreach : (Lexeme.mk "block-comment" Grammar.blockComment true).reach ('/' :: '*' :: s) = n + 2 :=
    by simp [hn, Nat.add_comm]
  have hop := Nat.le_trans (longest_operators_slash ('*' :: s)) (Nat.le_add_left 2 n)
  have hkey := longest_keywords (c := '/') (s := '*' :: s) rfl
  have hmem : '/' ∉ Grammar.punctuation.toList := by decide
  refine ⟨by omega, _ :: _ :: [], _, rfl, ?_, ?_⟩
  · simp [hreach, runOf_cons, isBlank]
  · simp [hreach, hkey, hop, isLetter, isQuote, hmem]

/-- A name that is reserved is a keyword, as keywords come before names. -/
lemma wins_keyword (hc : isLetter c = true)
    (hname : String.ofList ((c :: s).takeWhile isNamePart) ∈ Grammar.keywords) :
    Wins Grammar.lexemes (c :: s) ⟨"keyword", Grammar.keyword, false⟩ := by
  obtain ⟨hblank, hdigit, hquote, hslash⟩ := of_isLetter hc
  have hopens : opens c = true := by simp [opens, hc]
  have hlongest := longest_keywords_getD (c :: s)
  rw [if_pos hname] at hlongest
  refine ⟨?_, _ :: _ :: _ :: [], _, rfl, ?_, ?_⟩
  · simp [hlongest, runOf_cons, isNamePart, hc]
  · simp [hlongest, runOf_cons, isNamePart, hc, hblank, hslash]
  · simp [hlongest, hc, hdigit, hquote, longest_operators hopens, notMem_punctuation hopens]

lemma wins_identifier (hc : isLetter c = true)
    (hname : String.ofList ((c :: s).takeWhile isNamePart) ∉ Grammar.keywords) :
    Wins Grammar.lexemes (c :: s) ⟨"identifier", Grammar.identifier, false⟩ := by
  obtain ⟨hblank, hdigit, hquote, hslash⟩ := of_isLetter hc
  have hopens : opens c = true := by simp [opens, hc]
  have hlongest := longest_keywords_getD (c :: s)
  rw [if_neg hname] at hlongest
  have hrun : 0 < runOf isNamePart (c :: s) := by simp [runOf_cons, isNamePart, hc]
  refine ⟨by simp [hc, hrun], _ :: _ :: _ :: _ :: [], _, rfl, ?_, ?_⟩
  · simp [runOf_cons isBlank, hc, hblank, hslash, hrun, hlongest.resolve_right (by omega)]
  · simp [hc, hdigit, hquote, longest_operators hopens, notMem_punctuation hopens]

lemma wins_number (hc : c.isDigit = true) :
    Wins Grammar.lexemes (c :: s) ⟨"number", Grammar.number, false⟩ := by
  obtain ⟨hblank, hletter, hquote, hslash⟩ := of_isDigit hc
  have hopens : opens c = true := by simp [opens, hc]
  have hpos : 0 < number (c :: s) := by
    simp only [number, runOf_cons, hc, if_true]
    omega
  refine ⟨by simp [hc, hpos], _ :: _ :: _ :: _ :: _ :: [], _, rfl, ?_, ?_⟩
  · simp [runOf_cons isBlank, hc, hblank, hslash, hletter, longest_keywords hletter, hpos]
  · simp [hc, hquote, longest_operators hopens, notMem_punctuation hopens]

lemma wins_string {n : Nat} (hc : isQuote c = true) (hn : quoted c s = some n) :
    Wins Grammar.lexemes (c :: s) ⟨"string", Grammar.string, false⟩ := by
  obtain ⟨hblank, hletter, hdigit, hslash⟩ := of_isQuote hc
  have hopens : opens c = true := by simp [opens, hc]
  have hreach : (Lexeme.mk "string" Grammar.string false).reach (c :: s) = n + 1 := by
    simp [hc, hn, Nat.add_comm]
  refine ⟨by omega, _ :: _ :: _ :: _ :: _ :: _ :: [], _, rfl, ?_, ?_⟩
  · simp [hreach, runOf_cons, hdigit, hblank, hslash, hletter, longest_keywords hletter]
  · simp [hreach, longest_operators hopens, notMem_punctuation hopens]

/-- A quote that is not closed is no word. -/
lemma winner_of_quote (hc : isQuote c = true) (hn : quoted c s = none) :
    winner Grammar.lexemes (c :: s) = none := by
  obtain ⟨hblank, hletter, hdigit, hslash⟩ := of_isQuote hc
  have hopens : opens c = true := by simp [opens, hc]
  rw [winner_eq_none_iff]
  simp [Grammar.lexemes, runOf_cons, hc, hn, hdigit, hblank, hslash, hletter, longest_keywords hletter,
    longest_operators hopens, notMem_punctuation hopens]

lemma reach_of_comment_none (h : comment s = none) :
    (Lexeme.mk "line-comment" Grammar.lineComment true).reach s = 0 ∧
      (Lexeme.mk "block-comment" Grammar.blockComment true).reach s = 0 := by
  rw [reach_lineComment, reach_blockComment]
  unfold comment at h
  split at h
  next => cases h
  next hline =>
    refine ⟨if_neg hline, ?_⟩
    split
    next hblock => rw [if_pos hblock] at h; rw [h]; rfl
    next => rfl

section Symbol

/-- A character with which no other word starts is left to operators and punctuation. -/
lemma reach_of_symbol (hopens : opens c = false) (hcomment : comment (c :: s) = none) :
    ∀ x ∈ Grammar.lexemes.take 7, x.reach (c :: s) = 0 := by
  obtain ⟨⟨⟨hblank, hletter⟩, hdigit⟩, hquote⟩ :
      ((isBlank c = false ∧ isLetter c = false) ∧ c.isDigit = false) ∧ isQuote c = false := by
    simpa [opens] using hopens
  obtain ⟨hline, hblock⟩ := reach_of_comment_none hcomment
  simp [Grammar.lexemes, -reach_lineComment, -reach_blockComment, hline, hblock, runOf_cons, hblank, hletter,
    hdigit, hquote, longest_keywords hletter]

variable (hopens : opens c = false) (hcomment : comment (c :: s) = none)

include hopens hcomment

lemma wins_operator {n : Nat} (hn : longest Grammar.operators (c :: s) = some n) :
    Wins Grammar.lexemes (c :: s) ⟨"operator", Grammar.operator, false⟩ := by
  have hnonempty : ∀ text ∈ Grammar.operators, 0 < text.length := by decide
  obtain ⟨⟨text, htext, -, hlength⟩, -⟩ := longest_eq_some_iff.mp hn
  have hpos := hnonempty text htext
  rw [hlength] at hpos
  refine ⟨by simpa [hn] using hpos, Grammar.lexemes.take 7, _, rfl, ?_, ?_⟩
  · intro x hx
    simpa [reach_of_symbol hopens hcomment x hx, hn] using hpos
  · simp [hn]
    split <;> omega

lemma wins_punctuation (hn : longest Grammar.operators (c :: s) = none)
    (hc : c ∈ Grammar.punctuation.toList) :
    Wins Grammar.lexemes (c :: s) ⟨"punctuation", Rule.chars Grammar.punctuation, false⟩ := by
  refine ⟨by simp [hc], Grammar.lexemes.take 8, [], rfl, ?_, by simp⟩
  intro x hx
  rw [show Grammar.lexemes.take 8 = Grammar.lexemes.take 7 ++ [⟨"operator", Grammar.operator, false⟩]
    from rfl, List.mem_append, List.mem_singleton] at hx
  rcases hx with hx | rfl
  · simp [reach_of_symbol hopens hcomment x hx, hc]
  · simp [hn, hc]

lemma winner_of_symbol (hn : longest Grammar.operators (c :: s) = none)
    (hc : c ∉ Grammar.punctuation.toList) : winner Grammar.lexemes (c :: s) = none := by
  rw [winner_eq_none_iff]
  intro x hx
  rw [← List.take_append_drop 7 Grammar.lexemes, List.mem_append] at hx
  rcases hx with hx | hx
  · exact reach_of_symbol hopens hcomment x hx
  · have hlast : ∀ x ∈ [Lexeme.mk "operator" Grammar.operator false,
        ⟨"punctuation", Rule.chars Grammar.punctuation, false⟩], x.reach (c :: s) = 0 := by
      simp [hn, hc]
    exact hlast x hx

end Symbol

lemma map_winner_of_wins {x : Lexeme} (h : Wins Grammar.lexemes s x) :
    (winner Grammar.lexemes s).map (cut · s) = some (cut x s) := by
  rw [winner_eq_some_iff.mpr h, Option.map_some]

lemma map_winner_of_comment {n : Nat} (h : comment s = some n) :
    (winner Grammar.lexemes s).map (cut · s) = some ⟨none, n⟩ := by
  unfold comment at h
  split at h
  next hline =>
    obtain ⟨u, rfl⟩ := hline
    cases h
    rw [List.cons_append, List.cons_append, List.nil_append, map_winner_of_wins (wins_lineComment u)]
    simp [cut]
  next =>
    split at h
    next hblock =>
      obtain ⟨u, rfl⟩ := hblock
      obtain ⟨m, hm, rfl⟩ := Option.map_eq_some_iff.mp h
      have hclosing : closing u = some m := hm
      rw [List.cons_append, List.cons_append, List.nil_append,
        map_winner_of_wins (wins_blockComment hclosing)]
      simp [cut, hclosing]
    next => cases h

/-- **The winner** among the lexemes of the language is what the scanner sees. -/
lemma map_winner_eq_piece (c : Char) (s : List Char) :
    (winner Grammar.lexemes (c :: s)).map (cut · (c :: s)) = piece (c :: s) := by
  rw [piece]
  by_cases hblank : isBlank c = true
  · rw [if_pos hblank, map_winner_of_wins (wins_whitespace hblank)]
    simp [cut]
  rw [if_neg hblank]
  cases hcomment : comment (c :: s) with
  | some n => exact map_winner_of_comment hcomment
  | none =>
    simp only
    by_cases hletter : isLetter c = true
    · rw [if_pos hletter, name]
      by_cases hname : String.ofList ((c :: s).takeWhile isNamePart) ∈ Grammar.keywords
      · rw [map_winner_of_wins (wins_keyword hletter hname), if_pos hname]
        have hlongest := longest_keywords_getD (c :: s)
        rw [if_pos hname] at hlongest
        simp [cut, hlongest, runOf]
      · rw [map_winner_of_wins (wins_identifier hletter hname), if_neg hname]
        simp [cut, hletter, runOf]
    rw [if_neg hletter]
    by_cases hdigit : c.isDigit = true
    · rw [if_pos hdigit, map_winner_of_wins (wins_number hdigit)]
      simp [cut, hdigit]
    rw [if_neg hdigit]
    by_cases hquote : isQuote c = true
    · rw [if_pos hquote]
      cases hn : quoted c s with
      | none => rw [winner_of_quote hquote hn, Option.map_none, Option.map_none]
      | some n =>
        rw [map_winner_of_wins (wins_string hquote hn)]
        simp [cut, hquote, hn]
    rw [if_neg hquote]
    have hopens : opens c = false := by simp [opens, hblank, hletter, hdigit, hquote]
    cases hn : longest Grammar.operators (c :: s) with
    | some n =>
      rw [map_winner_of_wins (wins_operator hopens hcomment hn)]
      simp [cut, hn]
    | none =>
      simp only
      by_cases hpunct : c ∈ Grammar.punctuation.toList
      · rw [if_pos hpunct, map_winner_of_wins (wins_punctuation hopens hcomment hn hpunct)]
        simp [cut, hpunct]
      · rw [if_neg hpunct, winner_of_symbol hopens hcomment hn hpunct, Option.map_none]

/-- What the scanner cuts off is what the winner takes. -/
lemma exists_winner_of_piece {x : Piece} (h : piece s = some x) :
    ∃ y, winner Grammar.lexemes s = some y ∧ cut y s = x := by
  cases s with
  | nil => cases h
  | cons c s =>
    rw [← map_winner_eq_piece] at h
    exact Option.map_eq_some_iff.mp h

lemma piece_pos {x : Piece} (h : piece s = some x) : 0 < x.length := by
  obtain ⟨y, hy, rfl⟩ := exists_winner_of_piece h
  exact (wins_of_winner hy).1

lemma piece_le {x : Piece} (h : piece s = some x) : x.length ≤ s.length := by
  obtain ⟨y, -, rfl⟩ := exists_winner_of_piece h
  exact y.reach_le s

/-! ## Whole texts -/

/-- A word as one sees it. -/
structure Word where
  kind : String
  text : List Char
  place : Position
  deriving DecidableEq

/-- Cuts a text that starts at `place`, from left to right. -/
def scan (place : Position) (s : List Char) : Except LexicalError (List Word) :=
  match h : piece s with
  | none => if s = [] then .ok [] else .error (.noLexeme place)
  | some x =>
    have := piece_pos h
    have := piece_le h
    let rest := scan (place.advanceOver (s.take x.length)) (s.drop x.length)
    match x.kind with
    | none => rest
    | some kind => rest.map (⟨kind, s.take x.length, place⟩ :: ·)
termination_by s.length
decreasing_by rw [List.length_drop]; omega

variable {place : Position}

lemma scan_nil (place : Position) : scan place [] = .ok [] := by
  rw [scan]
  rfl

lemma scan_of_none (hs : s ≠ []) (h : piece s = none) : scan place s = .error (.noLexeme place) := by
  rw [scan]
  split
  next => rw [if_neg hs]
  next h' => rw [h] at h'; cases h'

lemma scan_of_some {x : Piece} (h : piece s = some x) :
    scan place s =
      let rest := scan (place.advanceOver (s.take x.length)) (s.drop x.length)
      match x.kind with
      | none => rest
      | some kind => rest.map (⟨kind, s.take x.length, place⟩ :: ·) := by
  rw [scan]
  split
  next h' => rw [h] at h'; cases h'
  next h' =>
    rw [h] at h'
    cases h'
    rfl

end Scanner

/-- A token as one sees it. -/
def Token.word (t : Token) : Scanner.Word := ⟨t.kind, t.text, t.place⟩

namespace Scanner

open Munch

variable {text : List Char} {p : Nat}

lemma whole_map (f : Token → Word) (t : Token) (ts : List Token) (stop : Option LexicalError) :
    (whole (t :: ts) stop).map (List.map f) = ((whole ts stop).map (List.map f)).map (f t :: ·) := by
  cases stop <;> rfl

/-- From each point of a text on, the scanner gives the tokens that maximal munch gives. -/
lemma scan_drop (hp : p ≤ text.length) :
    scan (Position.start.advanceOver (text.take p)) (text.drop p) =
      (whole (tokens Grammar.lexemes text p) (halt Grammar.lexemes text p)).map (List.map Token.word) := by
  induction hn : text.length - p using Nat.strongRecOn generalizing p with
  | ind k ih =>
    rcases Nat.eq_or_lt_of_le hp with heq | hlt
    · have hend : tokens Grammar.lexemes text p = [] ∧ halt Grammar.lexemes text p = none :=
        tokens_of_end heq
      rw [hend.1, hend.2, List.drop_eq_nil_of_le (by omega), scan_nil]
      rfl
    · obtain ⟨c, s, hs⟩ := List.exists_cons_of_ne_nil (l := text.drop p) (by simp; omega)
      have hpiece := map_winner_eq_piece c s
      rw [← hs] at hpiece
      cases hw : winner Grammar.lexemes (text.drop p) with
      | none =>
        obtain ⟨htokens, hhalt⟩ := tokens_of_stuck hlt hw
        rw [hw, Option.map_none] at hpiece
        rw [htokens, hhalt, scan_of_none (by simp [hs]) hpiece.symm]
        rfl
      | some x =>
        obtain ⟨htokens, hhalt⟩ := tokens_of_winner hw
        obtain ⟨-, hle⟩ := le_length_of_winner hw
        have hpos := (wins_of_winner hw).1
        rw [hw, Option.map_some] at hpiece
        have hrest := ih _ (by omega) hle rfl
        rw [List.take_add, Position.advanceOver_append, ← List.drop_drop] at hrest
        rw [scan_of_some hpiece.symm, htokens, hhalt]
        simp only [cut, hrest]
        cases x.skippable with
        | true => rfl
        | false =>
          simp only [Bool.false_eq_true, if_false, whole_map]
          rfl

/-- A whole text is cut by the scanner as maximal munch cuts it. -/
lemma munch_eq_scan (text : List Char) :
    (munch Grammar.lexemes text).map (List.map Token.word) = scan Position.start text :=
  (scan_drop (Nat.zero_le text.length)).symm

end Scanner

namespace Lexer

/-- The words that the lexer of the language finds in a text. -/
def wordsOf (text : String) : Except LexicalError (List Scanner.Word) :=
  match tokenize.run (ofText Grammar.lexemes text) with
  | .ok ts _ => .ok (ts.map Token.word)
  | .error e _ => .error e

lemma wordsOf_eq_munch (text : String) :
    wordsOf text = (Munch.munch Grammar.lexemes text.toList).map (List.map Token.word) := by
  obtain ⟨l', hrun, -⟩ := tokenize_spec (ahead_ofText Grammar.lexemes text)
  rw [wordsOf, hrun, Munch.munch]
  cases Munch.halt Grammar.lexemes text.toList 0 <;> rfl

/-- **The lexer of the language is the scanner.**  Whatever the text is, both find the same words of the
same kinds at the same places, or fail at the same place. -/
theorem wordsOf_eq_scan (text : String) :
    wordsOf text = Scanner.scan Position.start text.toList := by
  rw [wordsOf_eq_munch, Scanner.munch_eq_scan]

end Lexer

end ScriptLang
