/-
A scanner for the words of the scripting language.

The words of the language are given by rules that compete with one another (`Grammar.lexemes`).  This file
says the same without rules.  At each point the scanner looks at one or two characters to see what stands
there, and takes it in one pass: white space, a comment, a name, a number, a string, an operator or a
punctuation character.

`Scanner.piece` is what stands at the start of a text.  For every rule of the language there is a lemma
that says how much it takes in terms of the scanner.
-/
import ScriptLang.Token.Grammar
import ScriptLang.Proofs.Rule.Taken

namespace ScriptLang

namespace Scanner

/-! ## Characters -/

/-- White space. -/
def isBlank (c : Char) : Bool := [' ', '\t', '\r', '\n'].contains c

/-- A character that can start a name. -/
def isLetter (c : Char) : Bool := c.isAlpha || c = '_' || c = '$'

/-- A character that can go on with a name. -/
def isNamePart (c : Char) : Bool := isLetter c || c.isDigit

/-- A character that starts and ends a string. -/
def isQuote (c : Char) : Bool := c = '"' || c = '\''

/-! ## What can stand at the start of a text -/

/-- How many characters there are through the first end of a comment in brackets. -/
def closing : List Char → Option Nat
  | [] => none
  | c :: s => if c = '*' ∧ s.head? = some '/' then some 2 else (closing s).map (1 + ·)

/-- The length of a comment: up to the end of the line, or through the bracket that closes it. -/
def comment (s : List Char) : Option Nat :=
  if ['/', '/'] <+: s then some (2 + runOf (fun c => c ≠ '\n') (s.drop 2))
  else if ['/', '*'] <+: s then (closing (s.drop 2)).map (2 + ·)
  else none

/-- The length of a dot with digits after it. -/
def fraction (s : List Char) : Nat :=
  let digits := runOf Char.isDigit (s.drop 1)
  if s.head? = some '.' ∧ 0 < digits then 1 + digits else 0

/-- The length of a sign. -/
def sign (s : List Char) : Nat := if s.head? = some '+' ∨ s.head? = some '-' then 1 else 0

/-- The length of an exponent with its sign. -/
def exponent (s : List Char) : Nat :=
  let signed := 1 + sign (s.drop 1)
  let digits := runOf Char.isDigit (s.drop signed)
  if (s.head? = some 'e' ∨ s.head? = some 'E') ∧ 0 < digits then signed + digits else 0

/-- The length of a number. -/
def number (s : List Char) : Nat :=
  let whole := runOf Char.isDigit s
  let mantissa := whole + fraction (s.drop whole)
  mantissa + exponent (s.drop mantissa)

/-- How many characters there are through the quote that ends a string.  A backslash takes the character
after it along, and apart from that the string has to end on its line. -/
def quoted (quote : Char) : List Char → Option Nat
  | [] => none
  | c :: s =>
    if c = quote then some 1
    else if c = '\\' then
      match s with
      | [] => none
      | _ :: s => (quoted quote s).map (2 + ·)
    else if c = '\n' then none
    else (quoted quote s).map (1 + ·)

/-- The length of the longest of some texts with which `s` starts. -/
def longest (texts : List String) (s : List Char) : Option Nat :=
  ((texts.filter fun text => text.toList.isPrefixOf s).map String.length).max?

/-- What stands at the start of a text. -/
structure Piece where
  /-- The kind of the word, unless the piece is dropped. -/
  kind : Option String
  /-- How many characters it has. -/
  length : Nat

/-- A name, which may be reserved. -/
def name (s : List Char) : Piece :=
  let text := s.takeWhile isNamePart
  ⟨some (if String.ofList text ∈ Grammar.keywords then "keyword" else "identifier"), text.length⟩

/-- What stands at the start of a text. -/
def piece : List Char → Option Piece
  | [] => none
  | c :: s =>
    if isBlank c then some ⟨none, runOf isBlank (c :: s)⟩
    else if let some n := comment (c :: s) then some ⟨none, n⟩
    else if isLetter c then some (name (c :: s))
    else if c.isDigit then some ⟨some "number", number (c :: s)⟩
    else if isQuote c then (quoted c s).map fun n => ⟨some "string", 1 + n⟩
    else if let some n := longest Grammar.operators (c :: s) then some ⟨some "operator", n⟩
    else if c ∈ Grammar.punctuation.toList then some ⟨some "punctuation", 1⟩
    else none

end Scanner

/-! ## What the rules of the language take -/

namespace Grammar

open Rule Scanner

variable {s : List Char}

lemma taken_whitespace (s : List Char) :
    whitespace.taken s = if runOf isBlank s = 0 then none else Option.some (runOf isBlank s) :=
  ((single_chars _).congr fun _ => rfl).taken_some s

lemma taken_lineComment (s : List Char) :
    lineComment.taken s =
      if ['/', '/'] <+: s then Option.some (2 + runOf (fun c => c ≠ '\n') (s.drop 2)) else none := by
  have hbody : (except "\n").Single fun c => c ≠ '\n' := (single_except _).congr fun c => by simp
  rw [lineComment, taken_seq, taken_literal]
  show (if ['/', '/'] <+: s then Option.some 2 else none).bind _ = _
  split
  · simp [hbody.taken_many]
  · rfl

/-! ### Comments in brackets -/

/-- Characters that are no stars do not end a comment. -/
lemma closing_append {a : List Char} (ha : ∀ c ∈ a, c ≠ '*') (s : List Char) :
    closing (a ++ s) = (closing s).map (a.length + ·) := by
  induction a with
  | nil => simp
  | cons c a ih =>
    rw [List.forall_mem_cons] at ha
    rw [List.cons_append, closing, if_neg fun h => ha.1 h.1, ih ha.2, Option.map_map]
    congr 1
    funext n
    simp only [Function.comp_apply, List.length_cons]
    omega

/-- After a run of stars a slash ends the comment. -/
lemma closing_stars {n : Nat} (hn : 0 < n) (s : List Char) :
    closing (List.replicate n '*' ++ s) =
      (if s.head? = Option.some '/' then Option.some 1 else closing s).map (n + ·) := by
  induction n with
  | zero => omega
  | succ n ih =>
    rw [List.replicate_succ, List.cons_append, closing]
    rcases Nat.eq_zero_or_pos n with rfl | hpos
    · by_cases hslash : s.head? = Option.some '/'
      · simp [hslash]
      · simp [hslash]
    · have hhead : (List.replicate n '*' ++ s).head? = Option.some '*' := by
        obtain ⟨m, rfl⟩ := Nat.exists_eq_add_of_lt hpos
        simp [List.replicate_succ]
      rw [hhead, if_neg (by decide), ih hpos, Option.map_map]
      congr 1
      funext m
      simp only [Function.comp_apply]
      omega

/-- What stands between two brackets of a comment, up to the end of a run of stars. -/
def upToStars : List Rule := [(except "*").many, (chars "*").some]

/-- The part of a comment up to the end of its first run of stars. -/
lemma taken_upToStars (s : List Char) :
    (sequence upToStars).taken s = none ∧ closing s = none ∨
      ∃ n, (sequence upToStars).taken s = Option.some n ∧ 0 < n ∧
        (s.drop n).head? ≠ Option.some '*' ∧
        closing s = (if (s.drop n).head? = Option.some '/' then Option.some 1
          else closing (s.drop n)).map (n + ·) := by
  have hother : (except "*").Single fun c => c ≠ '*' := (single_except _).congr fun c => by simp
  have hstar : (chars "*").Single fun c => c = '*' := (single_chars _).congr fun c => by simp
  -- The text is cut into what is before the stars, the stars, and what is after them.
  obtain ⟨a, u, rfl, ha, hu⟩ := exists_run (fun c => c ≠ '*') s
  obtain ⟨stars, v, rfl, hstars, hv⟩ := exists_run (fun c => c = '*') u
  obtain ⟨k, rfl⟩ : ∃ k, stars = List.replicate k '*' :=
    ⟨_, List.eq_replicate_iff.mpr ⟨rfl, by simpa using hstars⟩⟩
  have htaken : (sequence upToStars).taken (a ++ (List.replicate k '*' ++ v)) =
      if k = 0 then none else Option.some (a.length + k) := by
    simp only [upToStars, taken_sequence_cons, hother.taken_many, runOf_append ha hu, List.drop_left,
      hstar.taken_some, runOf_append hstars hv, Option.bind_some, List.length_replicate]
    split <;> simp [Rule.sequence]
  rw [htaken, closing_append (by simpa using ha)]
  rcases Nat.eq_zero_or_pos k with rfl | hpos
  · left
    obtain rfl : v = [] := by
      rw [← List.head?_eq_none_iff, Option.eq_none_iff_forall_not_mem]
      intro c hc
      simpa [hv c hc] using hu c hc
    simp [closing]
  · right
    have hdrop : (a ++ (List.replicate k '*' ++ v)).drop (a.length + k) = v := by
      rw [← List.append_assoc, List.drop_left' (by simp)]
    refine ⟨a.length + k, if_neg (by omega), by omega, ?_, ?_⟩
    · rw [hdrop]
      intro hhead
      simpa using hv '*' hhead
    · rw [closing_stars hpos, hdrop, Option.map_map]
      congr 1
      funext m
      simp only [Function.comp_apply]
      omega

/-- After a run of stars a comment goes on until a slash follows such a run. -/
lemma taken_untilSlash {v : List Char} (hv : v.head? ≠ Option.some '*') :
    (sequence [(sequence (except "/*" :: upToStars)).many, literal "/"]).taken v =
      if v.head? = Option.some '/' then Option.some 1 else closing v := by
  have hother : (except "/*").Single fun c => !(c = '/' || c = '*') :=
    (single_except _).congr fun c => by simp
  have hend : (sequence [literal "/"]).Single fun c => c = '/' := single_literal "/" rfl
  induction hn : v.length using Nat.strongRecOn generalizing v with
  | ind k ih =>
    cases v with
    | nil =>
      rw [taken_many_then_of_none (by rw [taken_sequence_cons, hother]; rfl)]
      rfl
    | cons c v =>
      have hstar : c ≠ '*' := fun h => hv (by rw [h, List.head?_cons])
      by_cases hslash : c = '/'
      · subst hslash
        rw [taken_many_then_of_none (by rw [taken_sequence_cons, hother]; rfl), hend]
        rfl
      · have hpart : (sequence (except "/*" :: upToStars)).taken (c :: v) =
            ((sequence upToStars).taken v).map (1 + ·) := by
          rw [taken_sequence_cons, hother]
          simp [takenIf, hslash, hstar]
        rw [List.head?_cons, if_neg (by simpa using hslash), closing, if_neg fun h => hstar h.1]
        rcases taken_upToStars v with ⟨hnone, hopen⟩ | ⟨n, htaken, hpos, hhead, hclosing⟩
        · rw [taken_many_then_of_none (by rw [hpart, hnone]; rfl), hend, hopen]
          simp [takenIf, hslash]
        · have hdrop : (c :: v).drop (1 + n) = v.drop n := by rw [Nat.add_comm, List.drop_succ_cons]
          have hlt : (v.drop n).length < k := by
            rw [← hn, List.length_drop, List.length_cons]
            omega
          rw [taken_many_then_of_pos (n := 1 + n) (by rw [hpart, htaken]; rfl) (by omega), hdrop,
            ih _ hlt hhead rfl, hclosing, Option.map_map]
          congr 1
          funext m
          simp only [Function.comp_apply]
          omega

lemma taken_blockComment (s : List Char) :
    blockComment.taken s =
      if ['/', '*'] <+: s then (closing (s.drop 2)).map (2 + ·) else none := by
  have hopen : (literal "/*").taken s = if ['/', '*'] <+: s then Option.some 2 else none :=
    taken_literal "/*" s
  rw [show blockComment = sequence (literal "/*" :: (upToStars ++
      [(sequence (except "/*" :: upToStars)).many, literal "/"])) from rfl,
    taken_sequence_cons, hopen]
  split
  · rw [Option.bind_some, taken_sequence_append]
    rcases taken_upToStars (s.drop 2) with ⟨hnone, hclosing⟩ | ⟨n, htaken, -, hhead, hclosing⟩
    · rw [hnone, hclosing]
      rfl
    · rw [htaken, Option.bind_some, taken_untilSlash hhead, hclosing]
  · rfl

/-! ### Words -/

lemma taken_keyword (s : List Char) : keyword.taken s = longest keywords s :=
  taken_alternatives_literal (by decide) s

lemma taken_operator (s : List Char) : operator.taken s = longest operators s :=
  taken_alternatives_literal (by decide) s

lemma single_identifierStart : identifierStart.Single isLetter := by
  refine (((single_range 'a' 'z').alt (single_range 'A' 'Z')).alt (single_chars "_$")).congr fun c => ?_
  have hlower : (decide ('a' ≤ c) && decide (c ≤ 'z')) = c.isLower := rfl
  have hupper : (decide ('A' ≤ c) && decide (c ≤ 'Z')) = c.isUpper := (Bool.decide_and _ _).symm
  have halpha : c.isAlpha = (c.isUpper || c.isLower) := rfl
  rw [hlower, hupper, isLetter, halpha, Bool.or_comm c.isLower, Bool.or_assoc _ (decide _)]
  simp

lemma single_digit : (range '0' '9').Single Char.isDigit :=
  (single_range '0' '9').congr fun _ => rfl

lemma taken_identifier (c : Char) (s : List Char) :
    identifier.taken (c :: s) = if isLetter c then Option.some (runOf isNamePart (c :: s)) else none := by
  have hpart : (alt identifierStart (range '0' '9')).Single isNamePart :=
    single_identifierStart.alt single_digit
  rw [identifier, taken_seq, single_identifierStart, takenIf]
  split
  next hc => simp [hpart.taken_many, runOf_cons, isNamePart, hc, Nat.add_comm]
  next => rfl

lemma taken_digits (s : List Char) : (range '0' '9').some.taken s =
    if runOf Char.isDigit s = 0 then none else Option.some (runOf Char.isDigit s) :=
  single_digit.taken_some s

lemma taken_fraction (s : List Char) :
    ((literal ".").seq (range '0' '9').some).optional.taken s = Option.some (fraction s) := by
  have hdot : (literal ".").Single fun c => c = '.' := single_literal "." rfl
  rw [taken_optional, taken_seq, hdot, fraction]
  cases s with
  | nil => rfl
  | cons c s =>
    by_cases hc : c = '.'
    · rcases Nat.eq_zero_or_pos (runOf Char.isDigit s) with hnone | hpos
      · simp [takenIf, hc, taken_digits, hnone]
      · simp [takenIf, hc, taken_digits, hpos, Nat.ne_of_gt hpos]
    · simp [takenIf, hc]

lemma taken_sign (s : List Char) : (chars "+-").optional.taken s = Option.some (sign s) := by
  have hsign : (chars "+-").Single fun c => c = '+' || c = '-' :=
    (single_chars _).congr fun c => by simp
  rw [taken_optional, hsign]
  cases s with
  | nil => rfl
  | cons c s => by_cases hc : c = '+' ∨ c = '-' <;> simp [takenIf, sign, hc]

lemma taken_exponent (s : List Char) :
    (sequence [chars "eE", (chars "+-").optional, (range '0' '9').some]).optional.taken s =
      Option.some (exponent s) := by
  have hletter : (chars "eE").Single fun c => c = 'e' || c = 'E' :=
    (single_chars _).congr fun c => by simp
  have hdigits (s : List Char) : (sequence [(range '0' '9').some]).taken s = _ := taken_digits s
  rw [taken_optional, taken_sequence_cons, hletter, exponent]
  cases s with
  | nil => rfl
  | cons c s =>
    by_cases hc : c = 'e' ∨ c = 'E'
    · rcases Nat.eq_zero_or_pos (runOf Char.isDigit ((c :: s).drop (1 + sign s))) with hnone | hpos
      · simp [takenIf, taken_sequence_cons, taken_sign, hdigits, hc, hnone]
      · simp [takenIf, taken_sequence_cons, taken_sign, hdigits, hc, hpos, Nat.ne_of_gt hpos,
          Nat.add_assoc]
    · simp [takenIf, hc]

lemma taken_number (s : List Char) :
    number.taken s = if runOf Char.isDigit s = 0 then none else Option.some (Scanner.number s) := by
  have hexponent (s : List Char) : (sequence [(sequence [chars "eE", (chars "+-").optional,
      (range '0' '9').some]).optional]).taken s = _ := taken_exponent s
  rw [Grammar.number, taken_sequence_cons, taken_digits]
  split
  · rfl
  · simp [taken_sequence_cons, taken_fraction, hexponent, Scanner.number, Nat.add_assoc]

/-- The part of a string that goes on: a plain character, or a backslash with the character after it. -/
def stringPart (quote : Char) : Rule :=
  alt (except (String.ofList [quote, '\\', '\n'])) (seq (literal "\\") any)

lemma taken_stringPart (quote : Char) (c : Char) (s : List Char) :
    (stringPart quote).taken (c :: s) =
      if c = '\\' then s.head?.map fun _ => 2
      else if c = quote ∨ c = '\n' then none else Option.some 1 := by
  have hplain : (except (String.ofList [quote, '\\', '\n'])).Single
      fun c => !(c = quote || (c = '\\' || c = '\n')) :=
    (single_except _).congr fun c => by simp
  have hslash : (literal "\\").Single fun c => c = '\\' := single_literal "\\" rfl
  rw [stringPart, taken_alt, taken_seq, hplain, hslash]
  by_cases hc : c = '\\'
  · cases s <;> simp [hc, takenIf, single_any _]
  · by_cases hend : c = quote ∨ c = '\n'
    · simpa [takenIf, hc, hend] using hend.resolve_left
    · simpa [takenIf, hc, hend] using not_or.mp hend

/-- The rest of a string, after its first quote. -/
lemma taken_untilQuote {quote : Char} (hslash : quote ≠ '\\') (s : List Char) :
    (sequence [(stringPart quote).many, literal (String.singleton quote)]).taken s = quoted quote s := by
  have hend : (sequence [literal (String.singleton quote)]).Single fun c => c = quote :=
    single_literal _ (by simp)
  fun_induction quoted quote s with
  | case1 => rw [taken_many_then_of_none rfl, hend, takenIf]
  | case2 s =>
    rw [taken_many_then_of_none (by simp [taken_stringPart, hslash]), hend]
    simp [takenIf]
  | case3 hquote =>
    rw [taken_many_then_of_none (by simp [taken_stringPart]), hend]
    simp [takenIf, hquote]
  | case4 hquote d s ih =>
    rw [taken_many_then_of_pos (n := 2) (by simp [taken_stringPart]) (by omega)]
    exact congrArg _ ih
  | case5 s hquote hc =>
    rw [taken_many_then_of_none (by simp [taken_stringPart]), hend]
    simp [takenIf, hquote]
  | case6 c s hquote hc hline ih =>
    rw [taken_many_then_of_pos (n := 1) (by simp [taken_stringPart, hc, hquote, hline]) (by omega)]
    exact congrArg _ ih

lemma taken_stringBetween {quote : Char} (hslash : quote ≠ '\\') (c : Char) (s : List Char) :
    (stringBetween quote).taken (c :: s) = if c = quote then (quoted c s).map (1 + ·) else none := by
  have hopen : (literal (String.singleton quote)).Single fun c => c = quote := single_literal _ (by simp)
  rw [show stringBetween quote = sequence (literal (String.singleton quote) ::
      [(stringPart quote).many, literal (String.singleton quote)]) from rfl,
    taken_sequence_cons, hopen]
  by_cases hc : c = quote
  · simp [takenIf, hc, taken_untilQuote hslash]
  · simp [takenIf, hc]

lemma taken_string (c : Char) (s : List Char) :
    string.taken (c :: s) = if isQuote c then (quoted c s).map (1 + ·) else none := by
  rw [string, taken_alt, taken_stringBetween (by decide), taken_stringBetween (by decide)]
  by_cases hdouble : c = '"'
  · simp [isQuote, hdouble]
  · by_cases hsingle : c = '\'' <;> simp [isQuote, hdouble, hsingle]

lemma taken_punctuation (c : Char) (s : List Char) :
    (chars punctuation).taken (c :: s) =
      if c ∈ punctuation.toList then Option.some 1 else none := by
  rw [single_chars punctuation, takenIf]
  simp

end Grammar

end ScriptLang
