/-
What a rule takes is a word of its language.

A rule denotes a set of words (`Rule.language`): sequence and choice denote concatenation and union, and a
repetition denotes the words that are put together from as many words of its content as it allows.  Running
a rule is greedy and never goes back, so it does not find every word of the language, but what it takes is
one (`Grove.run_takes_word`).

A repetition that takes nothing ends the loop and counts for all those that are missing.  The word is then
filled up with empty words, of which the language of the content has one (`Rule.nil_mem_pow`).
-/
import Mathlib.Computability.Language
import ScriptLang.Proofs.Rule.Refinement

namespace ScriptLang

namespace Rule

/-- The words of one letter. -/
def letters (accepted : Char → Prop) : Language Char := {w | ∃ c, accepted c ∧ w = [c]}

/-- The words that a rule denotes.  If `most` is below `least`, it is `least` that counts. -/
def language : Rule → Language Char
  | .oneOf chars => letters (· ∈ chars)
  | .noneOf chars => letters (· ∉ chars)
  | .range low high => letters fun c => low ≤ c ∧ c ≤ high
  | .outside low high => letters fun c => c < low ∨ high < c
  | .any => letters fun _ => True
  | .satisfying test => letters (test · = true)
  | .empty => 1
  | .seq first second => first.language * second.language
  | .alt first second => first.language + second.language
  | .times content least most =>
    {w | ∃ k, least ≤ k ∧ (∀ m ∈ most, k ≤ max least m) ∧ w ∈ content.language ^ k}

/-! ## Scanning -/

/-- Where a scan succeeds, it takes a word of the language. -/
def Takes (scan : List Char → Bool × Nat) (l : Language Char) : Prop :=
  ∀ s, (scan s).1 = true → s.take (scan s).2 ∈ l

variable {scan scan₁ scan₂ : List Char → Bool × Nat} {l l₁ l₂ : Language Char}

lemma takes_scanIf {test : Char → Bool} {accepted : Char → Prop}
    (h : ∀ c, test c = true → accepted c) : Takes (scanIf test) (letters accepted) := by
  intro s hs
  cases s with
  | nil => cases hs
  | cons c s =>
    by_cases hc : test c = true
    · simp only [scanIf, hc, if_true, List.take_succ_cons, List.take_zero]
      exact ⟨c, h c hc, rfl⟩
    · simp [scanIf, hc] at hs

lemma Takes.seq (h₁ : Takes scan₁ l₁) (h₂ : Takes scan₂ l₂) : Takes (scanSeq scan₁ scan₂) (l₁ * l₂) := by
  intro s hs
  have hfirst := h₁ s
  rw [scanSeq] at hs ⊢
  split at hs
  next n hscan =>
    rw [hscan] at hfirst
    rw [List.take_add]
    exact Language.append_mem_mul (hfirst rfl) (h₂ _ hs)
  next => cases hs

lemma Takes.alt (h₁ : Takes scan₁ l₁) (h₂ : Takes scan₂ l₂) : Takes (scanAlt scan₁ scan₂) (l₁ + l₂) := by
  intro s hs
  have hfirst := h₁ s
  have hsecond := h₂ s
  rw [Language.mem_add]
  rw [scanAlt] at hs ⊢
  split at hs
  next n m hscan₁ hscan₂ =>
    rw [hscan₁] at hfirst
    rw [hscan₂] at hsecond
    dsimp only
    split
    · exact .inr (hsecond rfl)
    · exact .inl (hfirst rfl)
  next hscan₁ _ =>
    rw [hscan₁] at hfirst
    exact .inl (hfirst rfl)
  next _ hscan₂ =>
    rw [hscan₂] at hsecond
    exact .inr (hsecond rfl)
  next => cases hs

/-- Empty words can be put together as often as one likes. -/
lemma nil_mem_pow (h : [] ∈ l) (k : Nat) : [] ∈ l ^ k :=
  Language.mem_pow.mpr ⟨List.replicate k [], by simp, List.length_replicate, by simpa using fun _ => h⟩

lemma lt_of_not_any_le {most : Option Nat} {count : Nat} (h : ¬most.any (· ≤ count) = true) :
    ∀ m ∈ most, count < m := by
  rintro m rfl
  simpa using h

/-- The repetitions that follow the first `count` of them take as many words as are still missing, and not
more than are allowed. -/
lemma take_scanTimes (h : Takes scan l) {least count : Nat} {most : Option Nat} {s : List Char}
    (hcount : ∀ m ∈ most, count ≤ max least m) (hs : (scanTimes scan least most count s).1 = true) :
    ∃ k, least ≤ count + k ∧ (∀ m ∈ most, count + k ≤ max least m) ∧
      s.take (scanTimes scan least most count s).2 ∈ l ^ k := by
  -- An end without another repetition.
  have hstop : ∀ count (s : List Char), (∀ m ∈ most, count ≤ max least m) →
      decide (least ≤ count) = true →
      ∃ k, least ≤ count + k ∧ (∀ m ∈ most, count + k ≤ max least m) ∧ s.take 0 ∈ l ^ k := by
    intro count s hcount hleast
    exact ⟨0, of_decide_eq_true hleast, hcount, by rw [pow_zero, Language.mem_one, List.take_zero]⟩
  fun_induction scanTimes scan least most count s with
  | case1 count s hmost => exact hstop count s hcount hs
  | case2 count s hmost n hscan => exact hstop count s hcount hs
  | case3 count s hmost n hscan hlt ok m hrest ih =>
    have hbelow := lt_of_not_any_le hmost
    rw [hrest] at ih
    obtain ⟨k, hleast, hmany, hword⟩ := ih (fun m hm => (hbelow m hm).trans_le (le_max_right _ _)) hs
    have hfirst := h s
    rw [hscan] at hfirst
    refine ⟨k + 1, by omega, fun m hm => ?_, ?_⟩
    · have hle := hmany m hm
      omega
    · rw [List.take_add, pow_succ']
      exact Language.append_mem_mul (hfirst rfl) hword
  | case4 count s hmost n hscan hlen =>
    -- The last repetition takes nothing, and empty words make up for those that are missing.
    have hbelow := lt_of_not_any_le hmost
    have hnil : [] ∈ l := by
      have hfirst := h s
      rw [hscan] at hfirst
      have hempty : s.take n = [] := by
        rw [List.length_drop] at hlen
        rw [← List.length_eq_zero_iff, List.length_take]
        omega
      exact hempty ▸ hfirst rfl
    refine ⟨max (count + 1) least - count, by omega, fun m hm => ?_, nil_mem_pow hnil _⟩
    have hlt := hbelow m hm
    omega

/-- **Scanning is sound.**  What a rule takes is a word of its language. -/
lemma takes_scan (r : Rule) : Takes r.scan r.language := by
  induction r with
  | oneOf chars => exact takes_scanIf fun c hc => by simpa using hc
  | noneOf chars => exact takes_scanIf fun c hc => by simpa using hc
  | range low high => exact takes_scanIf fun c hc => by simpa using hc
  | outside low high => exact takes_scanIf fun c hc => by simpa using hc
  | any => exact takes_scanIf fun _ _ => trivial
  | satisfying test => exact takes_scanIf fun _ hc => hc
  | empty => exact fun s _ => Language.nil_mem_one
  | seq first second ih₁ ih₂ => exact ih₁.seq ih₂
  | alt first second ih₁ ih₂ => exact ih₁.alt ih₂
  | times content least most ih =>
    intro s hs
    obtain ⟨k, hleast, hmost, hword⟩ := take_scanTimes ih (fun _ _ => Nat.zero_le _) hs
    rw [Nat.zero_add] at hleast
    simp only [Nat.zero_add] at hmost
    exact ⟨k, hleast, hmost, hword⟩

end Rule

namespace Grove

/-- **What a rule takes is a word of its language.**  Whatever has happened before, if a rule that is run on a
branch matches, then the branch has moved over a word of the language of the rule. -/
theorem run_takes_word (root : Nat) (text : String) (history : List Event) (rule : Rule) {i : Nat}
    {b b' : Branch} {g' : Group Reader Char} (hb : (grown root text history).Live i b)
    (hrun : (rule.run b).run (grown root text history).group = .ok (true, b') g') :
    ∃ w ∈ rule.language, b.ahead (grown root text history).group = w ++ b'.ahead g' ∧
      b'.position = b.position + w.length ∧ b'.place = b.place.advanceOver w := by
  obtain ⟨q, h⟩ := sound_grown root text history
  generalize grown root text history = grove at *
  have hon := h.on hb.1 hb.2
  obtain ⟨g₁, q', hscan, h'⟩ := h.run_spec hb rule
  have hahead : b.ahead grove.group = text.toList.drop b.position := Branch.ahead_eq h.follows hon
  rw [hahead] at hscan h' ⊢
  generalize hs : text.toList.drop b.position = s at *
  rw [hscan] at hrun
  obtain ⟨⟨hok, rfl⟩, rfl⟩ : ((rule.scan s).1 = true ∧ _ = b') ∧ _ = g' := by simpa using hrun
  have hi : i < grove.held.length := (List.getElem?_eq_some_iff.mp hb.1).1
  have hlive := h'.on (i := i) (List.getElem?_set_self hi) hb.2
  refine ⟨s.take (rule.scan s).2, Rule.takes_scan rule s hok, ?_, ?_, ?_⟩
  · rw [Branch.ahead_eq h'.follows hlive, Branch.movedTo_position, ← List.drop_drop, hs,
      List.take_append_drop]
  · rw [Branch.movedTo_position, List.length_take, Nat.min_eq_left (rule.scan_le s)]
  · rw [hon.place, ← hs, placeAt_reader, ← Position.advanceOver_append, ← List.take_add]
    rfl

/-- Of the text `7x`, at least three and at most two optional digits take `7`: the second repetition takes
nothing and stands for the third one as well. -/
theorem run_takes_word_padded :
    (grown 0 "7x" []).Live 0 (Branch.first 0) ∧
      ∃ b' g', (Rule.run (.times (Rule.optional (.range '0' '9')) 3 (some 2)) (Branch.first 0)).run
          (grown 0 "7x" []).group = .ok (true, b') g' ∧ b'.ahead g' = ['x'] ∧
        ['7'] ∈ Rule.language (.times (Rule.optional (.range '0' '9')) 3 (some 2)) := by
  have hlive : (grown 0 "7x" []).Live 0 (Branch.first 0) := ⟨rfl, rfl⟩
  refine ⟨hlive, _, _, rfl, rfl, ?_⟩
  obtain ⟨w, hw, hahead, -⟩ := run_takes_word 0 "7x" []
    (.times (Rule.optional (.range '0' '9')) 3 (some 2)) hlive rfl
  have hword : ['7'] ++ ['x'] = w ++ ['x'] := hahead
  exact List.append_cancel_right hword ▸ hw

end Grove

end ScriptLang
