/-
Words that are printed with white space between them are read again.

A word that was cut off a text is cut off in the same way wherever it is followed by white space or by
nothing (`Scanner.Alone`).  A name and a number stop at white space, a string stops at its own quote, and
no operator contains white space, so that none can get longer.  What starts like a comment was none.

The main result is `Lexer.wordsOf_reprint`.
-/
import ScriptLang.Proofs.Token.Scanning

namespace ScriptLang

/-- A run that ends before a text is cut is the same if something else comes after the cut. -/
lemma runOf_take_append {test : Char → Bool} {s r : List Char} {n : Nat}
    (hr : ∀ c ∈ r.head?, test c = false) (h : runOf test s ≤ n) :
    runOf test (s.take n ++ r) = runOf test s := by
  obtain ⟨a, u, rfl, ha, hu⟩ := exists_run test s
  rw [runOf_append ha hu] at h ⊢
  rw [List.take_append, List.take_of_length_le h, List.append_assoc, runOf_append ha]
  cases hcut : u.take (n - a.length) with
  | nil => exact hr
  | cons c v =>
    rw [List.cons_append, List.head?_cons]
    have hhead := List.head?_take (l := u) (i := n - a.length)
    rw [hcut, List.head?_cons] at hhead
    split at hhead
    · cases hhead
    · rw [hhead]
      exact hu

lemma runOf_le (test : Char → Bool) (s : List Char) : runOf test s ≤ s.length :=
  (List.takeWhile_prefix test).length_le

namespace Scanner

variable {c : Char} {s r : List Char} {n : Nat}

/-- What may come after a word: nothing, or white space. -/
def Apart (r : List Char) : Prop := ∀ c ∈ r.head?, isBlank c = true

lemma Apart.head?_ne (hr : Apart r) (hc : isBlank c = false) : r.head? ≠ some c := by
  intro h
  rw [hr c h] at hc
  cases hc

lemma Apart.isDigit (hr : Apart r) : ∀ c ∈ r.head?, c.isDigit = false :=
  fun c hc => (of_isBlank (hr c hc)).2.1

/-! ## Numbers -/

lemma Apart.sign_eq (hr : Apart r) : sign r = 0 := by
  simp [sign, hr.head?_ne (c := '+') (by decide), hr.head?_ne (c := '-') (by decide)]

lemma Apart.fraction_eq (hr : Apart r) : fraction r = 0 := by
  simp [fraction, hr.head?_ne (c := '.') (by decide)]

lemma Apart.exponent_eq (hr : Apart r) : exponent r = 0 := by
  simp [exponent, hr.head?_ne (c := 'e') (by decide), hr.head?_ne (c := 'E') (by decide)]

lemma fraction_take_append (hr : Apart r) (hn : fraction s ≤ n) :
    fraction (s.take n ++ r) = fraction s := by
  cases s with
  | nil => simpa [fraction] using hr.fraction_eq
  | cons c s =>
    cases n with
    | zero => rw [List.take_zero, List.nil_append, hr.fraction_eq]; omega
    | succ n =>
      by_cases hc : c = '.'
      · subst hc
        have hrun : runOf Char.isDigit s ≤ n := by
          simp only [fraction, List.head?_cons, List.drop_one, List.tail_cons, true_and] at hn
          split at hn <;> omega
        simp [fraction, runOf_take_append hr.isDigit hrun]
      · simp [fraction, hc]

lemma fraction_le (s : List Char) : fraction s ≤ s.length := by
  have hle := runOf_le Char.isDigit (s.drop 1)
  rw [List.length_drop] at hle
  simp only [fraction]
  split <;> omega

lemma sign_le (s : List Char) : sign s ≤ 1 := by
  unfold sign
  split <;> omega

/-- Digits and the sign before them are the same after a cut behind them. -/
lemma signed_take_append (hr : Apart r) (hsign : sign s ≤ n)
    (hn : runOf Char.isDigit (s.drop (sign s)) ≤ n - sign s) :
    sign (s.take n ++ r) = sign s ∧
      runOf Char.isDigit ((s.take n ++ r).drop (sign s)) = runOf Char.isDigit (s.drop (sign s)) := by
  have hsame : sign (s.take n ++ r) = sign s := by
    cases s with
    | nil => simpa [sign] using hr.sign_eq
    | cons c s =>
      cases n with
      | zero => rw [List.take_zero, List.nil_append, hr.sign_eq]; omega
      | succ n => rfl
  have hlen : sign s ≤ s.length := by
    cases s with
    | nil => simp [sign]
    | cons c s =>
      have := sign_le (c :: s)
      rw [List.length_cons]
      omega
  refine ⟨hsame, ?_⟩
  rw [List.drop_append_of_le_length (by rw [List.length_take]; omega), List.drop_take,
    runOf_take_append hr.isDigit hn]

lemma exponent_cons (c : Char) (s : List Char) :
    exponent (c :: s) =
      if (c = 'e' ∨ c = 'E') ∧ 0 < runOf Char.isDigit (s.drop (sign s)) then
        1 + sign s + runOf Char.isDigit (s.drop (sign s)) else 0 := by
  simp [exponent, Nat.add_comm 1 (sign s)]

lemma exponent_take_append (hr : Apart r) (hn : exponent s ≤ n) :
    exponent (s.take n ++ r) = exponent s := by
  cases s with
  | nil => simpa [exponent] using hr.exponent_eq
  | cons c s =>
    cases n with
    | zero => rw [List.take_zero, List.nil_append, hr.exponent_eq]; omega
    | succ n =>
      rw [List.take_succ_cons, List.cons_append]
      rw [exponent_cons] at hn
      rw [exponent_cons, exponent_cons]
      by_cases hc : c = 'e' ∨ c = 'E'
      · simp only [hc, true_and] at hn ⊢
        by_cases hsign : sign s ≤ n
        · obtain ⟨hsame, hdigits⟩ := signed_take_append hr hsign (by split at hn <;> omega)
          rw [hsame, hdigits]
        · -- the cut is behind the letter, so there are no digits behind the sign
          obtain rfl : n = 0 := by
            have := sign_le s
            omega
          have hnone : runOf Char.isDigit (s.drop (sign s)) = 0 := by split at hn <;> omega
          have hrest : runOf Char.isDigit r = 0 := runOf_append (a := []) (by simp) hr.isDigit
          rw [List.take_zero, List.nil_append, hr.sign_eq, List.drop_zero, hrest, hnone]
          rfl
      · simp [hc]

lemma number_take_append (hr : Apart r) (hn : number s ≤ n) : number (s.take n ++ r) = number s := by
  have hdrop {m : Nat} (hm : m ≤ n) (hlen : m ≤ s.length) :
      (s.take n ++ r).drop m = (s.drop m).take (n - m) ++ r := by
    rw [List.drop_append_of_le_length (by rw [List.length_take]; omega), List.drop_take]
  have hwhole := runOf_le Char.isDigit s
  have hfraction := fraction_le (s.drop (runOf Char.isDigit s))
  rw [List.length_drop] at hfraction
  simp only [number] at hn ⊢
  rw [runOf_take_append hr.isDigit (by omega), hdrop (by omega) hwhole,
    fraction_take_append hr (by omega), hdrop (by omega) (by omega), exponent_take_append hr (by omega)]

/-! ## Strings -/

/-- A string ends at its quote, whatever comes after it. -/
lemma quoted_take_append {quote : Char} (h : quoted quote s = some n) (r : List Char) :
    quoted quote (s.take n ++ r) = some n := by
  fun_induction quoted quote s generalizing n with
  | case1 => cases h
  | case2 s =>
    cases h
    rw [List.take_succ_cons, List.cons_append, quoted.eq_def]
    simp only [if_true]
  | case3 => cases h
  | case4 d s hquote ih =>
    obtain ⟨m, hm, rfl⟩ := Option.map_eq_some_iff.mp h
    rw [Nat.add_comm 2 m, List.take_succ_cons, List.take_succ_cons, List.cons_append, List.cons_append,
      quoted, if_neg hquote, if_pos rfl]
    simp only [ih hm, Option.map_some, Nat.add_comm]
  | case5 => cases h
  | case6 c s hquote hc hline ih =>
    obtain ⟨m, hm, rfl⟩ := Option.map_eq_some_iff.mp h
    rw [Nat.add_comm 1 m, List.take_succ_cons, List.cons_append, quoted.eq_def]
    simp only [if_neg hquote, if_neg hc, if_neg hline, ih hm, Option.map_some, Nat.add_comm]

/-! ## Operators -/

/-- A text without white space does not go beyond white space. -/
lemma prefix_of_prefix_append {a u : List Char} (hr : Apart r) (hu : ∀ c ∈ u, isBlank c = false)
    (h : u <+: a ++ r) : u <+: a := by
  induction a generalizing u with
  | nil =>
    cases u with
    | nil => exact List.prefix_rfl
    | cons c u =>
      obtain ⟨v, rfl⟩ := h
      exact absurd rfl (hr.head?_ne (hu c (by simp)))
  | cons d a ih =>
    cases u with
    | nil => exact List.nil_prefix
    | cons c u =>
      rw [List.cons_append, List.cons_prefix_cons] at h
      rw [List.cons_prefix_cons]
      exact ⟨h.1, ih (fun c hc => hu c (List.mem_cons_of_mem _ hc)) h.2⟩

lemma comment_eq_none_iff : comment s = none ↔
    ¬ ['/', '/'] <+: s ∧ (['/', '*'] <+: s → closing (s.drop 2) = none) := by
  unfold comment
  by_cases hline : ['/', '/'] <+: s
  · simp [hline]
  · by_cases hblock : ['/', '*'] <+: s <;> simp [hline, hblock]

/-- No operator is the start of a comment, and white space after it does not make it one. -/
lemma comment_operator {text : String} (htext : text ∈ Grammar.operators) (hr : Apart r) :
    comment (text.toList ++ r) = none := by
  have hopen : ∀ text ∈ Grammar.operators, ¬ ['/', '/'] <+: text.toList ∧ ¬ ['/', '*'] <+: text.toList := by
    decide
  obtain ⟨hline, hblock⟩ := hopen text htext
  rw [comment_eq_none_iff]
  refine ⟨fun h => hline ?_, fun h => absurd ?_ hblock⟩
  · exact prefix_of_prefix_append hr (List.all_iff_forall_prop.mp (by decide)) h
  · exact prefix_of_prefix_append hr (List.all_iff_forall_prop.mp (by decide)) h

lemma isBlank_of_operator {text : String} (htext : text ∈ Grammar.operators) :
    ∀ c ∈ text.toList, isBlank c = false := by
  have hall : ∀ text ∈ Grammar.operators, text.toList.all (fun c => isBlank c = false) = true := by decide
  exact List.all_iff_forall_prop.mp (hall text htext)

lemma longest_operator {text : String} (htext : text ∈ Grammar.operators) (hr : Apart r) :
    longest Grammar.operators (text.toList ++ r) = some text.length := by
  refine longest_eq_some_iff.mpr ⟨⟨text, htext, List.prefix_append _ _, rfl⟩, ?_⟩
  intro other hother hstart
  have hle := (prefix_of_prefix_append hr (isBlank_of_operator hother) hstart).length_le
  simpa only [String.length_toList] using hle

/-! ## The first character decides -/

lemma comment_of_ne (hc : '/' ≠ c) : comment (c :: s) = none := by
  simp [comment_eq_none_iff, hc]

lemma piece_of_letter (hc : isLetter c = true) : piece (c :: s) = some (name (c :: s)) := by
  obtain ⟨hblank, -, -, hslash⟩ := of_isLetter hc
  simp [piece, hblank, comment_of_ne hslash, hc]

lemma piece_of_digit (hc : c.isDigit = true) :
    piece (c :: s) = some ⟨some "number", number (c :: s)⟩ := by
  obtain ⟨hblank, hletter, -, hslash⟩ := of_isDigit hc
  simp [piece, hblank, comment_of_ne hslash, hletter, hc]

lemma piece_of_quote (hc : isQuote c = true) :
    piece (c :: s) = (quoted c s).map fun n => ⟨some "string", 1 + n⟩ := by
  obtain ⟨hblank, hletter, hdigit, hslash⟩ := of_isQuote hc
  simp [piece, hblank, comment_of_ne hslash, hletter, hdigit, hc]

lemma piece_of_symbol (hc : opens c = false) (hcomment : comment (c :: s) = none) :
    piece (c :: s) =
      if let some n := longest Grammar.operators (c :: s) then some ⟨some "operator", n⟩
      else if c ∈ Grammar.punctuation.toList then some ⟨some "punctuation", 1⟩
      else none := by
  obtain ⟨⟨⟨hblank, hletter⟩, hdigit⟩, hquote⟩ :
      ((isBlank c = false ∧ isLetter c = false) ∧ c.isDigit = false) ∧ isQuote c = false := by
    simpa [opens] using hc
  cases hlongest : longest Grammar.operators (c :: s) with
  | none => simp [piece, hblank, hcomment, hletter, hdigit, hquote, hlongest]
  | some n => simp [piece, hblank, hcomment, hletter, hdigit, hquote, hlongest]

/-! ## Words alone -/

/-- A word of a kind that is cut off whenever white space or nothing comes after it. -/
def Alone (kind : String) (w : List Char) : Prop :=
  ∀ r, Apart r → piece (w ++ r) = some ⟨some kind, w.length⟩

lemma alone_name (hc : isLetter c = true) {kind : String} (h : name (c :: s) = ⟨some kind, n⟩) :
    Alone kind ((c :: s).take n) := by
  intro r hr
  have hr' : ∀ c ∈ r.head?, isNamePart c = false := by
    intro c hc
    obtain ⟨hletter, hdigit, -⟩ := of_isBlank (hr c hc)
    simp [isNamePart, hletter, hdigit]
  obtain ⟨a, u, hs, ha, hu⟩ := exists_run isNamePart (c :: s)
  obtain ⟨hkind, rfl⟩ := Piece.mk.inj h
  cases a with
  | nil =>
    rw [List.nil_append] at hs
    have hc' := hu c (by rw [← hs, List.head?_cons]; rfl)
    simp [isNamePart, hc] at hc'
  | cons d a =>
    obtain ⟨rfl, -⟩ := List.cons.inj hs
    rw [hs, takeWhile_run ha hu] at hkind ⊢
    rw [List.take_left, List.cons_append, piece_of_letter hc, name, ← List.cons_append,
      takeWhile_run ha hr', hkind]

lemma alone_number (hc : c.isDigit = true) : Alone "number" ((c :: s).take (number (c :: s))) := by
  intro r hr
  have hpiece := piece_of_digit (s := s) hc
  have hsame := number_take_append (s := c :: s) hr (Nat.le_refl _)
  obtain ⟨n, hn⟩ := Nat.exists_eq_succ_of_ne_zero (Nat.ne_of_gt (piece_pos hpiece))
  change number (c :: s) = n + 1 at hn
  rw [List.length_take_of_le (piece_le hpiece)]
  rw [hn, List.take_succ_cons, List.cons_append] at hsame ⊢
  rw [piece_of_digit hc, hsame]

lemma alone_string (hc : isQuote c = true) {m : Nat} (hm : quoted c s = some m) :
    Alone "string" ((c :: s).take (1 + m)) := by
  intro r hr
  have hpiece := piece_of_quote (s := s) hc
  rw [hm, Option.map_some] at hpiece
  rw [List.length_take_of_le (piece_le hpiece), Nat.add_comm, List.take_succ_cons, List.cons_append,
    piece_of_quote hc, quoted_take_append hm, Option.map_some, Nat.add_comm]

lemma alone_operator {text : String} (htext : text ∈ Grammar.operators) : Alone "operator" text.toList := by
  have hopens : ∀ text ∈ Grammar.operators, ∃ c u, text.toList = c :: u ∧ opens c = false := by
    have hheads : ∀ text ∈ Grammar.operators, text.toList.head?.any (!opens ·) = true := by decide
    intro text htext
    have hhead := hheads text htext
    cases hlist : text.toList with
    | nil => simp [hlist] at hhead
    | cons c u => exact ⟨c, u, rfl, by simpa [hlist] using hhead⟩
  intro r hr
  have hcomment := comment_operator htext hr
  have hlongest := longest_operator htext hr
  obtain ⟨c, u, hlist, hc⟩ := hopens text htext
  rw [← String.length_toList] at hlongest
  rw [hlist, List.cons_append] at hcomment hlongest ⊢
  rw [piece_of_symbol hc hcomment, hlongest]

lemma alone_punctuation (hc : c ∈ Grammar.punctuation.toList)
    (hn : longest Grammar.operators (c :: s) = none) : Alone "punctuation" [c] := by
  have hall : ∀ c ∈ Grammar.punctuation.toList, opens c = false ∧ '/' ≠ c :=
    List.all_iff_forall_prop.mp (by decide)
  obtain ⟨hopens, hslash⟩ := hall c hc
  intro r hr
  have hnone : longest Grammar.operators (c :: r) = none := by
    rw [longest_eq_none_iff] at hn ⊢
    intro text htext hstart
    have hone := prefix_of_prefix_append (a := [c]) hr (isBlank_of_operator htext) hstart
    exact hn text htext (hone.trans (List.prefix_append [c] s))
  rw [List.singleton_append, piece_of_symbol hopens (comment_of_ne hslash), hnone]
  simp [hc]

/-- **Each word** that is kept is cut off again if white space comes after it. -/
lemma alone_of_piece {kind : String} (h : piece s = some ⟨some kind, n⟩) : Alone kind (s.take n) := by
  cases s with
  | nil => cases h
  | cons c s =>
    by_cases hblank : isBlank c = true
    · simp [piece, hblank] at h
    cases hcomment : comment (c :: s) with
    | some m => simp [piece, hblank, hcomment] at h
    | none =>
      by_cases hletter : isLetter c = true
      · rw [piece_of_letter hletter, Option.some_inj] at h
        exact alone_name hletter h
      by_cases hdigit : c.isDigit = true
      · rw [piece_of_digit hdigit] at h
        cases h
        exact alone_number hdigit
      by_cases hquote : isQuote c = true
      · rw [piece_of_quote hquote] at h
        obtain ⟨m, hm, heq⟩ := Option.map_eq_some_iff.mp h
        cases heq
        exact alone_string hquote hm
      have hopens : opens c = false := by simp [opens, hblank, hletter, hdigit, hquote]
      rw [piece_of_symbol hopens hcomment] at h
      cases hlongest : longest Grammar.operators (c :: s) with
      | some m =>
        rw [hlongest] at h
        cases h
        obtain ⟨⟨text, htext, hstart, rfl⟩, -⟩ := longest_eq_some_iff.mp hlongest
        rw [← String.length_toList, ← List.prefix_iff_eq_take.mp hstart]
        exact alone_operator htext
      | none =>
        rw [hlongest] at h
        simp only at h
        split at h
        next hmem =>
          cases h
          exact alone_punctuation hmem hlongest
        next => cases h

/-! ## Whole texts -/

/-- A word that is kept does not start with white space. -/
lemma Alone.eq_cons {kind : String} {w : List Char} (h : Alone kind w) :
    ∃ c u, w = c :: u ∧ isBlank c = false := by
  have hpiece := h [] (by simp [Apart])
  rw [List.append_nil] at hpiece
  cases w with
  | nil => cases hpiece
  | cons c w =>
    refine ⟨c, w, rfl, Bool.eq_false_iff.mpr fun hblank => ?_⟩
    simp [piece, hblank] at hpiece

variable {place : Position}

lemma alone_of_scan {ws : List Word} (h : scan place s = .ok ws) : ∀ w ∈ ws, Alone w.kind w.text := by
  induction hn : s.length using Nat.strongRecOn generalizing s place ws with
  | ind k ih =>
    cases hpiece : piece s with
    | none =>
      by_cases hs : s = []
      · subst hs
        rw [scan_nil] at h
        cases h
        simp
      · rw [scan_of_none hs hpiece] at h
        cases h
    | some x =>
      have hpos := piece_pos hpiece
      have hle := piece_le hpiece
      have hlt : (s.drop x.length).length < k := by rw [List.length_drop]; omega
      rw [scan_of_some hpiece] at h
      obtain ⟨kind, n⟩ := x
      cases kind with
      | none => exact ih _ hlt h rfl
      | some kind =>
        cases hrest : scan (place.advanceOver (s.take n)) (s.drop n) with
        | error e => simp [hrest, Except.map] at h
        | ok ws' =>
          obtain rfl : _ = ws := by simpa [hrest, Except.map] using h
          intro w hw
          rcases List.mem_cons.mp hw with rfl | hw
          · exact alone_of_piece hpiece
          · exact ih _ hlt hrest rfl w hw

/-- What one sees of a word apart from its place. -/
def Word.face (w : Word) : String × List Char := (w.kind, w.text)

/-- Words with white space before each of them. -/
def spaced (blank : Char) (ws : List Word) : List Char := ws.flatMap fun w => blank :: w.text

variable {blank : Char} (hblank : isBlank blank = true)

include hblank

lemma apart_spaced (ws : List Word) : Apart (spaced blank ws) := by
  cases ws with
  | nil => simp [spaced, Apart]
  | cons w ws => simp [spaced, Apart, hblank]

/-- A word alone is read, and the scanner goes on after it. -/
lemma scan_alone {w : Word} (hw : Alone w.kind w.text) {ws ws' : List Word}
    (h : scan (place.advanceOver w.text) (spaced blank ws) = .ok ws') :
    scan place (w.text ++ spaced blank ws) = .ok (⟨w.kind, w.text, place⟩ :: ws') := by
  rw [scan_of_some (hw _ (apart_spaced hblank ws))]
  simp only [List.take_left, List.drop_left, h]
  rfl

lemma scan_spaced {ws : List Word} (hws : ∀ w ∈ ws, Alone w.kind w.text) :
    ∀ place, ∃ ws', scan place (spaced blank ws) = .ok ws' ∧ ws'.map Word.face = ws.map Word.face := by
  induction ws with
  | nil => exact fun place => ⟨[], scan_nil place, rfl⟩
  | cons w ws ih =>
    intro place
    rw [List.forall_mem_cons] at hws
    obtain ⟨ws', hscan, hface⟩ := ih hws.2 ((place.advance blank).advanceOver w.text)
    refine ⟨⟨w.kind, w.text, place.advance blank⟩ :: ws', ?_, by simp [hface, Word.face]⟩
    have hword := scan_alone hblank hws.1 hscan
    have hrun : runOf isBlank (blank :: (w.text ++ spaced blank ws)) = 1 := by
      obtain ⟨c, u, htext, hc⟩ := hws.1.eq_cons
      simp [htext, runOf_cons, hblank, hc]
    have hpiece : piece (blank :: (w.text ++ spaced blank ws)) = some ⟨none, 1⟩ := by
      simp [piece, hblank, hrun]
    rw [show spaced blank (w :: ws) = blank :: (w.text ++ spaced blank ws) by simp [spaced],
      scan_of_some hpiece]
    simpa using hword

/-- The words of a text, joined by white space. -/
lemma scan_joined {ws : List Word} (hws : ∀ w ∈ ws, Alone w.kind w.text) :
    ∃ ws', scan place ([blank].intercalate (ws.map Word.text)) = .ok ws' ∧
      ws'.map Word.face = ws.map Word.face := by
  cases ws with
  | nil => exact ⟨[], scan_nil place, rfl⟩
  | cons w ws =>
    have hjoin : [blank].intercalate ((w :: ws).map Word.text) = w.text ++ spaced blank ws := by
      clear hws
      induction ws generalizing w with
      | nil => simp [spaced]
      | cons v ws ih =>
        rw [List.map_cons, List.map_cons, List.intercalate_cons_cons, ← List.map_cons, ih]
        simp [spaced]
    rw [List.forall_mem_cons] at hws
    obtain ⟨ws', hscan, hface⟩ := scan_spaced hblank hws.2 (place.advanceOver w.text)
    rw [hjoin]
    exact ⟨_, scan_alone hblank hws.1 hscan, by simp [hface, Word.face]⟩

end Scanner

namespace Lexer

open Scanner

/-- The texts of some words in a row, with a separator between them. -/
def reprint (separator : Char) (ws : List Word) : String :=
  (String.singleton separator).intercalate (ws.map fun w => String.ofList w.text)

/-- **Words can be printed and read again.**  If the words of a text are printed with one character of
white space between them, such as a space or a line feed, the lexer reads words of the same kinds and with
the same texts. -/
theorem wordsOf_reprint {text : String} {ws : List Word} {separator : Char}
    (h : wordsOf text = .ok ws) (hseparator : isBlank separator = true) :
    ∃ ws', wordsOf (reprint separator ws) = .ok ws' ∧
      ws'.map (fun w => (w.kind, w.text)) = ws.map fun w => (w.kind, w.text) := by
  rw [wordsOf_eq_munch, munch_eq_scan] at h
  have htexts : (reprint separator ws).toList = [separator].intercalate (ws.map Word.text) := by
    rw [reprint, String.toList_intercalate, List.map_map]
    simp [Function.comp_def]
  rw [wordsOf_eq_munch, munch_eq_scan, htexts]
  exact scan_joined hseparator (alone_of_scan h)

/-- A comment is dropped, what looks like one in a string is kept, and a dot that has no digits after it is
no part of a number. -/
theorem wordsOf_reprint_comment :
    let ws : List Word :=
      [⟨"identifier", ['x'], ⟨1, 1⟩⟩, ⟨"operator", ['/', '='], ⟨1, 2⟩⟩,
        ⟨"string", ['"', 'a', '/', '/', '\'', '"'], ⟨1, 9⟩⟩, ⟨"operator", ['+'], ⟨1, 15⟩⟩,
        ⟨"number", ['1'], ⟨1, 16⟩⟩, ⟨"punctuation", ['.'], ⟨1, 17⟩⟩, ⟨"identifier", ['e'], ⟨1, 18⟩⟩]
    wordsOf "x/=/*,*/\"a//'\"+1.e" = .ok ws ∧ ∀ separator ∈ [' ', '\n'], isBlank separator = true ∧
      ∃ ws', wordsOf (reprint separator ws) = .ok ws' ∧
        ws'.map (fun w => (w.kind, w.text)) = ws.map fun w => (w.kind, w.text) := by
  intro ws
  have hws : wordsOf "x/=/*,*/\"a//'\"+1.e" = .ok ws := by
    rw [wordsOf_eq_munch, munch_eq_scan]
    decide +kernel
  have hblank : ∀ separator ∈ [' ', '\n'], isBlank separator = true :=
    List.all_iff_forall_prop.mp (by decide)
  exact ⟨hws, fun separator h => ⟨hblank separator h, wordsOf_reprint hws (hblank separator h)⟩⟩

end Lexer

end ScriptLang
