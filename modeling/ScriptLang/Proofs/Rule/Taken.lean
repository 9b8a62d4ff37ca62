/-
How much a rule takes.

`Rule.taken` says how many characters a rule takes at the start of a text, if it matches there.  There is
one lemma for each way of building a rule: a sequence adds up, a choice takes the maximum, a repetition of
a rule for single characters takes the longest run of them.  With these lemmas the rules of a grammar are
computed without a look at how they are run.

Alternatives are put together by binary choices.  However these are nested (`Rule.ChoiceOf`), what they take
was taken by one of the alternatives, and none of them takes more (`Rule.ChoiceOf.taken_iff`).
-/
import ScriptLang.Proofs.Rule.Refinement

namespace ScriptLang

/-- How many characters at the start of a text pass a test. -/
def runOf (test : Char → Bool) (s : List Char) : Nat := (s.takeWhile test).length

lemma runOf_cons (test : Char → Bool) (c : Char) (s : List Char) :
    runOf test (c :: s) = if test c then runOf test s + 1 else 0 := by
  cases h : test c <;> simp [runOf, h]

/-- A run of characters ends where the test first fails. -/
lemma takeWhile_run {test : Char → Bool} {a u : List Char} (ha : ∀ c ∈ a, test c)
    (hu : ∀ c ∈ u.head?, test c = false) : (a ++ u).takeWhile test = a := by
  rw [List.takeWhile_append_of_pos ha]
  cases u with
  | nil => simp
  | cons c u => simp [hu c rfl]

lemma runOf_append {test : Char → Bool} {a u : List Char} (ha : ∀ c ∈ a, test c)
    (hu : ∀ c ∈ u.head?, test c = false) : runOf test (a ++ u) = a.length := by
  rw [runOf, takeWhile_run ha hu]

/-- Every text is a run of characters and what comes after it. -/
lemma exists_run (test : Char → Bool) (s : List Char) :
    ∃ a u, s = a ++ u ∧ (∀ c ∈ a, test c) ∧ ∀ c ∈ u.head?, test c = false := by
  induction s with
  | nil => exact ⟨[], [], by simp⟩
  | cons c s ih =>
    cases hc : test c with
    | false => exact ⟨[], c :: s, by simp [hc]⟩
    | true =>
      obtain ⟨a, u, rfl, ha, hu⟩ := ih
      exact ⟨c :: a, u, rfl, List.forall_mem_cons.mpr ⟨hc, ha⟩, hu⟩

namespace Rule

variable {r first second : Rule} {s : List Char} {test : Char → Bool}

/-- How many characters a rule takes at the start of a text, if it matches. -/
def taken (r : Rule) (s : List Char) : Option Nat :=
  if (r.scan s).1 then Option.some (r.scan s).2 else none

lemma scan_of_taken {n : Nat} (h : r.taken s = Option.some n) : r.scan s = (true, n) := by
  unfold taken at h
  split at h
  next hok =>
    cases h
    exact Prod.ext hok rfl
  next => cases h

lemma scan_of_taken_none (h : r.taken s = none) : ∃ n, r.scan s = (false, n) := by
  unfold taken at h
  split at h
  next => cases h
  next hok => exact ⟨(r.scan s).2, Prod.ext (Bool.eq_false_iff.mpr hok) rfl⟩

lemma taken_le {n : Nat} (h : r.taken s = Option.some n) : n ≤ s.length := by
  have hle := r.scan_le s
  rwa [scan_of_taken h] at hle

/-! ## Sequences and choices -/

@[simp]
lemma taken_empty (s : List Char) : Rule.empty.taken s = Option.some 0 := rfl

lemma taken_seq (first second : Rule) (s : List Char) :
    (Rule.seq first second).taken s =
      (first.taken s).bind fun n => (second.taken (s.drop n)).map (n + ·) := by
  unfold taken
  rw [scan, scanSeq]
  rcases first.scan s with ⟨ok, n⟩
  cases ok with
  | false => rfl
  | true =>
    simp only [if_true, Option.bind_some]
    rcases second.scan (s.drop n) with ⟨ok, m⟩
    cases ok <;> rfl

lemma taken_alt (first second : Rule) (s : List Char) :
    (Rule.alt first second).taken s = max (first.taken s) (second.taken s) := by
  unfold taken
  rw [scan, scanAlt]
  rcases first.scan s with ⟨ok₁, n⟩
  rcases second.scan s with ⟨ok₂, m⟩
  cases ok₁ <;> cases ok₂ <;> try rfl
  show Option.some (if n < m then m else n) = Option.some (max n m)
  congr 1
  split <;> omega

lemma taken_foldl_seq (r : Rule) (rs : List Rule) (s : List Char) :
    (rs.foldl .seq r).taken s =
      (r.taken s).bind fun n => ((sequence rs).taken (s.drop n)).map (n + ·) := by
  induction rs generalizing r s with
  | nil => cases h : r.taken s <;> simp [sequence, h]
  | cons r' rs ih =>
    rw [List.foldl_cons, ih, taken_seq]
    cases r.taken s with
    | none => rfl
    | some n =>
      rw [Option.bind_some, Option.bind_some, sequence, ih]
      cases r'.taken (s.drop n) with
      | none => rfl
      | some m => simp [Function.comp_def, Nat.add_assoc]

/-- A sequence goes on where its first rule ends. -/
lemma taken_sequence_cons (r : Rule) (rs : List Rule) (s : List Char) :
    (sequence (r :: rs)).taken s =
      (r.taken s).bind fun n => ((sequence rs).taken (s.drop n)).map (n + ·) :=
  taken_foldl_seq r rs s

lemma taken_sequence_append (rs rs' : List Rule) (s : List Char) :
    (sequence (rs ++ rs')).taken s =
      ((sequence rs).taken s).bind fun n => ((sequence rs').taken (s.drop n)).map (n + ·) := by
  induction rs generalizing s with
  | nil => simp [sequence]
  | cons r rs ih =>
    rw [List.cons_append, taken_sequence_cons, taken_sequence_cons]
    cases r.taken s with
    | none => rfl
    | some n =>
      rw [Option.bind_some, Option.bind_some, ih]
      cases (sequence rs).taken (s.drop n) with
      | none => rfl
      | some m => simp [Function.comp_def, Nat.add_assoc]

/-! ## Alternatives -/

/-- Binary choices between the rules of a list, nested in any way. -/
inductive ChoiceOf : Rule → List Rule → Prop
  | one (r : Rule) : ChoiceOf r [r]
  | either {first second : Rule} {rules rules' : List Rule} : ChoiceOf first rules →
      ChoiceOf second rules' → ChoiceOf (.alt first second) (rules ++ rules')

section Choice

variable {r' : Rule} {rules rules' : List Rule} {n : Nat}

/-- Alternatives are nested to the left. -/
lemma choiceOf_alternatives (h : rules ≠ []) : (alternatives rules).ChoiceOf rules := by
  have hfold : ∀ (more : List Rule) {r : Rule} {rules : List Rule}, r.ChoiceOf rules →
      (more.foldl .alt r).ChoiceOf (rules ++ more) := by
    intro more
    induction more with
    | nil =>
      intro r rules h
      rwa [List.append_nil]
    | cons next more ih =>
      intro r rules h
      rw [List.append_cons]
      exact ih (.either h (.one next))
  obtain ⟨r, rules, rfl⟩ := List.exists_cons_of_ne_nil h
  exact hfold rules (.one r)

/-- What a choice takes was taken by one of its sides. -/
lemma taken_of_alt (h : (Rule.alt first second).taken s = Option.some n) :
    first.taken s = Option.some n ∨ second.taken s = Option.some n := by
  rw [taken_alt] at h
  cases hfirst : first.taken s with
  | none =>
    rw [hfirst, Option.max_none_left] at h
    exact .inr h
  | some k =>
    cases hsecond : second.taken s with
    | none =>
      rw [hfirst, hsecond, Option.max_none_right] at h
      exact .inl h
    | some m =>
      rw [hfirst, hsecond, Option.max_some_some, Option.some.injEq] at h
      simp only [Option.some.injEq]
      omega

/-- A choice takes at least what one of its sides takes. -/
lemma exists_le_taken_alt
    (h : first.taken s = Option.some n ∨ second.taken s = Option.some n) :
    ∃ k, (Rule.alt first second).taken s = Option.some k ∧ n ≤ k := by
  rw [taken_alt]
  rcases h with h | h
  · rw [h]
    cases second.taken s with
    | none => exact ⟨n, rfl, Nat.le_refl n⟩
    | some m => exact ⟨max n m, rfl, Nat.le_max_left n m⟩
  · rw [h]
    cases first.taken s with
    | none => exact ⟨n, rfl, Nat.le_refl n⟩
    | some m => exact ⟨max m n, rfl, Nat.le_max_right m n⟩

namespace ChoiceOf

/-- What nested choices take was taken by one of the rules. -/
lemma exists_taken (h : r.ChoiceOf rules) (hr : r.taken s = Option.some n) :
    ∃ r' ∈ rules, r'.taken s = Option.some n := by
  induction h with
  | one r => exact ⟨r, List.mem_singleton.mpr rfl, hr⟩
  | either _ _ ih₁ ih₂ =>
    rcases taken_of_alt hr with hside | hside
    · obtain ⟨r', hmem, htaken⟩ := ih₁ hside
      exact ⟨r', List.mem_append_left _ hmem, htaken⟩
    · obtain ⟨r', hmem, htaken⟩ := ih₂ hside
      exact ⟨r', List.mem_append_right _ hmem, htaken⟩

/-- Nested choices take at least what any of the rules takes. -/
lemma exists_le_taken (h : r.ChoiceOf rules) (hmem : r' ∈ rules) (hr' : r'.taken s = Option.some n) :
    ∃ k, r.taken s = Option.some k ∧ n ≤ k := by
  induction h with
  | one r =>
    rw [List.mem_singleton.mp hmem] at hr'
    exact ⟨n, hr', Nat.le_refl n⟩
  | @either first second _ _ _ _ ih₁ ih₂ =>
    have hside : ∃ m, (first.taken s = Option.some m ∨ second.taken s = Option.some m) ∧ n ≤ m := by
      rcases List.mem_append.mp hmem with hmem | hmem
      · obtain ⟨m, hm, hle⟩ := ih₁ hmem
        exact ⟨m, .inl hm, hle⟩
      · obtain ⟨m, hm, hle⟩ := ih₂ hmem
        exact ⟨m, .inr hm, hle⟩
    obtain ⟨m, hm, hle⟩ := hside
    obtain ⟨k, hk, hle'⟩ := exists_le_taken_alt hm
    exact ⟨k, hk, Nat.le_trans hle hle'⟩

/-- **Nested choices take the longest match.** -/
lemma taken_iff (h : r.ChoiceOf rules) : r.taken s = Option.some n ↔
    (∃ r' ∈ rules, r'.taken s = Option.some n) ∧
      ∀ r' ∈ rules, ∀ m, r'.taken s = Option.some m → m ≤ n := by
  constructor
  · intro hr
    refine ⟨h.exists_taken hr, fun r' hmem m hm => ?_⟩
    obtain ⟨k, hk, hle⟩ := h.exists_le_taken hmem hm
    cases hr.symm.trans hk
    exact hle
  · rintro ⟨⟨r', hmem, hr'⟩, hmost⟩
    obtain ⟨k, hk, hle⟩ := h.exists_le_taken hmem hr'
    obtain ⟨r'', hmem', hr''⟩ := h.exists_taken hk
    rw [hk, Nat.le_antisymm (hmost r'' hmem' k hr'') hle]

/-- How the choices are nested, in what order and how often they list a rule, has no effect. -/
lemma taken_congr (h : r.ChoiceOf rules) (h' : r'.ChoiceOf rules') (hsame : ∀ x, x ∈ rules ↔ x ∈ rules')
    (s : List Char) : r.taken s = r'.taken s := by
  refine Option.ext fun n => ?_
  rw [h.taken_iff, h'.taken_iff]
  simp only [hsame]

end ChoiceOf

end Choice

/-- **Alternatives** take as much as the one of them that takes most. -/
lemma taken_alternatives {rs : List Rule} (h : rs ≠ []) (s : List Char) :
    (alternatives rs).taken s = (rs.filterMap (·.taken s)).max? := by
  refine Option.ext fun n => ?_
  rw [(choiceOf_alternatives h).taken_iff, List.max?_eq_some_iff]
  simp only [List.mem_filterMap, forall_exists_index, and_imp]
  exact and_congr_right fun _ => ⟨fun hmost m r hr => hmost r hr m, fun hmost r hr m => hmost m r hr⟩

/-! ## Single characters -/

/-- What a rule takes that is for a single character which passes a test. -/
def takenIf (test : Char → Bool) : List Char → Option Nat
  | [] => none
  | c :: _ => if test c then Option.some 1 else none

/-- A rule takes one character, and only such as pass the test. -/
def Single (r : Rule) (test : Char → Bool) : Prop := ∀ s, r.taken s = takenIf test s

lemma taken_scanIf (test : Char → Bool) (s : List Char) :
    (if (scanIf test s).1 then Option.some (scanIf test s).2 else none) = takenIf test s := by
  cases s with
  | nil => rfl
  | cons c s => cases h : test c <;> simp [scanIf, takenIf, h]

lemma single_oneOf (chars : List Char) : (Rule.oneOf chars).Single (chars.contains ·) :=
  fun s => taken_scanIf _ s

lemma single_noneOf (chars : List Char) : (Rule.noneOf chars).Single (!chars.contains ·) :=
  fun s => taken_scanIf _ s

lemma single_range (low high : Char) :
    (Rule.range low high).Single fun c => low ≤ c && c ≤ high :=
  fun s => taken_scanIf _ s

lemma single_any : Rule.any.Single fun _ => true := fun s => taken_scanIf _ s

lemma Single.congr {other : Char → Bool} (h : r.Single test) (heq : ∀ c, test c = other c) :
    r.Single other := by
  obtain rfl : test = other := funext heq
  exact h

/-- A choice between two rules for single characters is one, too. -/
lemma Single.alt {other : Char → Bool} (h₁ : first.Single test) (h₂ : second.Single other) :
    (Rule.alt first second).Single fun c => test c || other c := by
  intro s
  rw [taken_alt, h₁ s, h₂ s]
  cases s with
  | nil => rfl
  | cons c s => cases htest : test c <;> cases hother : other c <;> simp [takenIf, htest, hother]

lemma mem_insertChar {c d : Char} {cs : List Char} : c ∈ insertChar d cs ↔ c = d ∨ c ∈ cs := by
  fun_induction insertChar d cs with
  | case1 => simp
  | case2 => simp
  | case3 ds h => simp
  | case4 e ds _ _ ih => simp only [List.mem_cons, ih]; tauto

lemma contains_charSet (text : String) (c : Char) :
    (charSet text).contains c = text.toList.contains c := by
  have hmem : ∀ cs : List Char, c ∈ cs.foldr insertChar [] ↔ c ∈ cs := by
    intro cs
    induction cs with
    | nil => rfl
    | cons d cs ih => rw [List.foldr_cons, mem_insertChar, ih, List.mem_cons]
  rw [Bool.eq_iff_iff, List.contains_iff_mem, List.contains_iff_mem]
  exact hmem text.toList

lemma single_chars (text : String) : (chars text).Single (text.toList.contains ·) :=
  (single_oneOf _).congr (contains_charSet text)

lemma single_except (text : String) : (except text).Single (!text.toList.contains ·) :=
  (single_noneOf _).congr fun c => congrArg _ (contains_charSet text c)

/-! ## Repetitions -/

section Times

variable {least count n : Nat} {most : Option Nat}

lemma scanTimes_of_most (hmost : most.any (· ≤ count) = true) (scan : List Char → Bool × Nat) :
    scanTimes scan least most count s = (decide (least ≤ count), 0) := by
  rw [scanTimes, if_pos hmost]

/-- A repetition that fails is taken back. -/
lemma scanTimes_of_fail (h : r.taken s = none) (hmost : most.any (· ≤ count) = false) :
    scanTimes r.scan least most count s = (decide (least ≤ count), 0) := by
  obtain ⟨n, hscan⟩ := scan_of_taken_none h
  rw [scanTimes, if_neg (by simp [hmost]), hscan]

/-- A repetition that takes nothing is the last one. -/
lemma scanTimes_of_zero (h : r.taken s = Option.some 0) (hmost : most.any (· ≤ count) = false) :
    scanTimes r.scan least most count s = (true, 0) := by
  rw [scanTimes, if_neg (by simp [hmost]), scan_of_taken h]
  simp

/-- A repetition that takes something is followed by another one. -/
lemma scanTimes_of_pos (h : r.taken s = Option.some n) (hn : 0 < n)
    (hmost : most.any (· ≤ count) = false) :
    scanTimes r.scan least most count s =
      ((scanTimes r.scan least most (count + 1) (s.drop n)).1,
        n + (scanTimes r.scan least most (count + 1) (s.drop n)).2) := by
  have hle := taken_le h
  have hlt : (s.drop n).length < s.length := by
    rw [List.length_drop]
    omega
  rw [scanTimes, if_neg (by simp [hmost]), scan_of_taken h]
  simp only [hlt, if_true]

/-- What is taken does not depend on how many repetitions there were before, if there were enough. -/
lemma scanTimes_of_le (count' : Nat) (hle : least ≤ count) :
    scanTimes r.scan least none count s = (true, (scanTimes r.scan 0 none count' s).2) := by
  induction hn : s.length using Nat.strongRecOn generalizing s count count' with
  | ind k ih =>
    cases h : r.taken s with
    | none => simp [scanTimes_of_fail h, hle]
    | some n =>
      rcases Nat.eq_zero_or_pos n with rfl | hpos
      · simp [scanTimes_of_zero h]
      · have hlen := taken_le h
        have hrest := ih (s.drop n).length (by rw [List.length_drop]; omega) (count' + 1)
          (Nat.le_succ_of_le hle) rfl
        rw [scanTimes_of_pos h hpos rfl, scanTimes_of_pos h hpos rfl, hrest]

end Times

lemma taken_many_of_none (h : r.taken s = none) : (many r).taken s = Option.some 0 := by
  simp [taken, many, scan, scanTimes_of_fail h]

/-- Repetitions go on where the first one ends. -/
lemma taken_many_of_pos {n : Nat} (h : r.taken s = Option.some n) (hn : 0 < n) :
    (many r).taken s = ((many r).taken (s.drop n)).map (n + ·) := by
  have hmore : ∀ count u, scanTimes r.scan 0 none count u = (true, (scanTimes r.scan 0 none 0 u).2) :=
    fun _ _ => scanTimes_of_le 0 (Nat.zero_le _)
  rw [taken, taken, many, scan, scanTimes_of_pos h hn rfl, hmore, hmore 0]
  rfl

/-- What follows the repetitions starts at once if there are none. -/
lemma taken_many_then_of_none {rs : List Rule} (h : r.taken s = none) :
    (sequence (many r :: rs)).taken s = (sequence rs).taken s := by
  rw [taken_sequence_cons, taken_many_of_none h]
  simp

/-- The first repetition can be split off from the repetitions and what follows them. -/
lemma taken_many_then_of_pos {rs : List Rule} {n : Nat} (h : r.taken s = Option.some n) (hn : 0 < n) :
    (sequence (many r :: rs)).taken s =
      ((sequence (many r :: rs)).taken (s.drop n)).map (n + ·) := by
  rw [taken_sequence_cons, taken_sequence_cons, taken_many_of_pos h hn]
  cases (many r).taken (s.drop n) with
  | none => rfl
  | some m => simp [Function.comp_def, Nat.add_assoc]

/-- At least one repetition is one and any number of them after it. -/
lemma taken_some (r : Rule) (s : List Char) :
    (some r).taken s = (r.taken s).bind fun n => ((many r).taken (s.drop n)).map (n + ·) := by
  cases h : r.taken s with
  | none => simp [taken, some, scan, scanTimes_of_fail h]
  | some n =>
    rw [Option.bind_some, taken, taken, some, many, scan, scan]
    rcases Nat.eq_zero_or_pos n with rfl | hpos
    · simp [scanTimes_of_zero h]
    · rw [scanTimes_of_pos h hpos rfl, scanTimes_of_le 0 (Nat.le_refl 1),
        scanTimes_of_le 0 (Nat.zero_le 0)]
      rfl

lemma taken_optional (r : Rule) (s : List Char) :
    (optional r).taken s = Option.some ((r.taken s).getD 0) := by
  rw [taken, optional, scan]
  cases h : r.taken s with
  | none => simp [scanTimes_of_fail h]
  | some n =>
    rcases Nat.eq_zero_or_pos n with rfl | hpos
    · simp [scanTimes_of_zero h]
    · simp [scanTimes_of_pos h hpos, scanTimes_of_most]

/-! ## Runs of characters -/

lemma Single.taken_many (h : r.Single test) (s : List Char) :
    (many r).taken s = Option.some (runOf test s) := by
  induction s with
  | nil => exact taken_many_of_none (h [])
  | cons c s ih =>
    cases htest : test c with
    | false =>
      rw [taken_many_of_none ((h _).trans (by simp [takenIf, htest]))]
      simp [runOf_cons, htest]
    | true =>
      rw [taken_many_of_pos ((h _).trans (by simp [takenIf, htest])) Nat.one_pos, List.drop_one,
        List.tail_cons, ih]
      simp [runOf_cons, htest, Nat.add_comm]

lemma Single.taken_some (h : r.Single test) (s : List Char) :
    (some r).taken s = if runOf test s = 0 then none else Option.some (runOf test s) := by
  rw [Rule.taken_some, h s]
  cases s with
  | nil => rfl
  | cons c s => cases htest : test c <;> simp [takenIf, runOf_cons, htest, h.taken_many, Nat.add_comm]

/-! ## Texts -/

lemma taken_sequence_singles (cs : List Char) (s : List Char) :
    (sequence (cs.map fun c => .oneOf [c])).taken s =
      if cs <+: s then Option.some cs.length else none := by
  induction cs generalizing s with
  | nil => simp [sequence]
  | cons c cs ih =>
    rw [List.map_cons, taken_sequence_cons, single_oneOf]
    cases s with
    | nil => simp [takenIf]
    | cons d s =>
      by_cases hd : d = c
      · subst hd
        simp only [takenIf, List.contains_cons, BEq.rfl, Bool.true_or, if_true, Option.bind_some,
          List.drop_one, List.tail_cons, ih, List.prefix_cons_inj, List.length_cons]
        split <;> simp [Nat.add_comm]
      · have hne : c ≠ d := fun hc => hd hc.symm
        simp [takenIf, hd, hne, List.cons_prefix_cons]

/-- A text is taken if the text before the rule starts with it. -/
lemma taken_literal (text : String) (s : List Char) :
    (literal text).taken s = if text.toList <+: s then Option.some text.length else none := by
  rw [literal, taken_sequence_singles, String.length_toList]

/-- The rule for a text of one character. -/
lemma single_literal (text : String) {c : Char} (h : text.toList = [c]) :
    (literal text).Single fun d => d = c := by
  have hone : literal text = .oneOf [c] := by rw [literal, h]; rfl
  rw [hone]
  exact (single_oneOf [c]).congr fun d => by simp

/-- Of several texts the longest one is taken with which the text starts. -/
lemma taken_alternatives_literal {texts : List String} (h : texts ≠ []) (s : List Char) :
    (alternatives (texts.map literal)).taken s =
      ((texts.filter fun text => text.toList.isPrefixOf s).map String.length).max? := by
  rw [taken_alternatives (by simpa using h), List.filterMap_map]
  congr 1
  clear h
  induction texts with
  | nil => rfl
  | cons text texts ih =>
    rw [List.filterMap_cons, ih, List.filter_cons, Function.comp_apply, taken_literal]
    by_cases htext : text.toList <+: s
    · simp [htext]
    · simp [htext]

end Rule

end ScriptLang
