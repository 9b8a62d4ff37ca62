/-
The pieces of a text.

Texts are read by taking them apart: into lines, into what stands before and after a sign, and into what
is left without the blanks at both ends.  Each of these is said here without the function that does it, as
an equation between the text and its pieces, together with what a piece is free of.
-/
import ScriptLang.Text.Blank
import Mathlib.Data.List.DropRight
import Mathlib.Data.List.TakeWhile
import Mathlib.Data.Nat.Digits.Defs

namespace ScriptLang.Text

/-! ## Blanks at the ends -/

/-- The text `t` is `cs` without the blanks at its two ends. -/
def Trims (cs t : List Char) : Prop :=
  ∃ left right, cs = left ++ t ++ right ∧ (∀ c ∈ left, isBlank c) ∧ (∀ c ∈ right, isBlank c) ∧
    (∀ c ∈ t.head?, ¬ isBlank c) ∧ (∀ c ∈ t.getLast?, ¬ isBlank c)

variable {cs ds t : List Char} {c : Char} {n : Nat}

lemma trims_trim (cs : List Char) : Trims cs (trim cs) := by
  set rest := cs.dropWhile isBlank with hrest
  have htrim : trim cs = rest.rdropWhile isBlank := rfl
  refine ⟨cs.takeWhile isBlank, rest.rtakeWhile isBlank, ?_, ?_, ?_, ?_, ?_⟩
  · rw [htrim, List.append_assoc, List.rdropWhile_append_rtakeWhile, hrest,
      List.takeWhile_append_dropWhile]
  · exact fun c hc => List.mem_takeWhile_imp hc
  · exact fun c hc => List.mem_rtakeWhile_imp hc
  · intro c hc
    -- the head is still the one of the text without the blanks in front
    obtain ⟨right, hright⟩ : trim cs <+: rest := htrim ▸ List.rdropWhile_prefix _ rest
    have hhead : rest.head? = some c := by
      rw [← hright, List.head?_append, Option.mem_def.mp hc]
      rfl
    have := List.head?_dropWhile_not isBlank cs
    rw [← hrest, hhead] at this
    simpa using this
  · intro c hc
    have hne : rest.rdropWhile isBlank ≠ [] := by
      rintro hnil
      rw [htrim, hnil] at hc
      cases hc
    rw [htrim, List.getLast?_eq_some_getLast hne, Option.mem_some_iff] at hc
    exact hc ▸ List.rdropWhile_last_not _ rest hne

lemma Trims.trim_eq (h : Trims cs t) : trim cs = t := by
  obtain ⟨left, right, rfl, hleft, hright, hhead, hlast⟩ := h
  have hblank : right.dropWhile isBlank = [] := List.dropWhile_eq_nil_iff.mpr hright
  have htail : right.reverse.dropWhile isBlank = [] :=
    List.dropWhile_eq_nil_iff.mpr fun c hc => hright c (List.mem_reverse.mp hc)
  rw [trim, List.append_assoc, List.dropWhile_append_of_pos hleft]
  rcases List.eq_nil_or_concat' t with rfl | ⟨init, d, rfl⟩
  · simp [trimRight, hblank]
  · have hd : ¬ isBlank d := hlast d (by simp)
    have hstart : (init ++ [d] ++ right).dropWhile isBlank = init ++ [d] ++ right := by
      cases init with
      | nil => exact List.dropWhile_cons_of_neg hd
      | cons c init => exact List.dropWhile_cons_of_neg (hhead c (by simp))
    rw [hstart, trimRight, List.reverse_append,
      List.dropWhile_append_of_pos fun c hc => hright c (List.mem_reverse.mp hc)]
    simp [List.dropWhile_cons_of_neg hd]

/-- Trimming leaves the text without the blanks at its two ends. -/
lemma trim_eq_iff : trim cs = t ↔ Trims cs t :=
  ⟨fun h => h ▸ trims_trim cs, Trims.trim_eq⟩

lemma Trims.subset (h : Trims cs t) : t ⊆ cs := by
  obtain ⟨left, right, rfl, -⟩ := h
  intro c hc
  simp [hc]

/-- Only blanks are lost. -/
lemma Trims.mem_of_not_blank (h : Trims cs t) (hc : c ∈ cs) (hblank : ¬ isBlank c) : c ∈ t := by
  obtain ⟨left, right, rfl, hleft, hright, -⟩ := h
  rcases List.mem_append.mp hc with hc | hc
  · rcases List.mem_append.mp hc with hc | hc
    · exact absurd (hleft c hc) hblank
    · exact hc
  · exact absurd (hright c hc) hblank

lemma trims_nil_iff : Trims cs [] ↔ ∀ c ∈ cs, isBlank c := by
  constructor
  · intro h c hc
    by_contra hblank
    exact List.not_mem_nil (h.mem_of_not_blank hc hblank)
  · exact fun h => ⟨cs, [], by simp, h, by simp, by simp, by simp⟩

/-! ## Before and after a sign -/

/-- A text is cut at the first place where the sign stands. -/
lemma cutAt?_eq_some_iff {before after : List Char} :
    cutAt? c cs = some (before, after) ↔ cs = before ++ c :: after ∧ c ∉ before := by
  induction cs generalizing before with
  | nil => simp [cutAt?]
  | cons d ds ih =>
    by_cases hd : d = c
    · cases before with
      | nil => simp [cutAt?, hd, eq_comm]
      | cons e before =>
        simp only [cutAt?, hd, if_true, List.cons_append, List.cons.injEq, List.mem_cons, not_or]
        grind
    · cases before with
      | nil => simp [cutAt?, hd]
      | cons e before =>
        simp only [cutAt?, if_neg hd, Option.map_eq_some_iff, Prod.mk.injEq, Prod.exists,
          List.cons.injEq, List.cons_append, List.mem_cons, not_or]
        constructor
        · rintro ⟨b, a, hcut, ⟨rfl, rfl⟩, rfl⟩
          obtain ⟨rfl, hb⟩ := ih.mp hcut
          exact ⟨⟨rfl, rfl⟩, Ne.symm hd, hb⟩
        · rintro ⟨⟨rfl, hds⟩, -, hbefore⟩
          exact ⟨before, after, ih.mpr ⟨hds, hbefore⟩, ⟨rfl, rfl⟩, rfl⟩

lemma cutAt?_eq_none_iff : cutAt? c cs = none ↔ c ∉ cs := by
  induction cs with
  | nil => simp [cutAt?]
  | cons d ds ih =>
    by_cases hd : d = c
    · simp [cutAt?, hd]
    · simp [cutAt?, hd, ih, Ne.symm hd]

/-! ## Lines -/

/-- The lines are the pieces between the line feeds. -/
lemma lines_eq_splitOn (cs : List Char) : lines cs = cs.splitOn '\n' := by
  induction cs with
  | nil => rfl
  | cons c cs ih =>
    simp only [lines, ih, List.splitOn, List.splitOnP_cons_eq_if_modifyHead, beq_iff_eq]
    cases hls : cs.splitOnP (· == '\n') with
    | nil => exact absurd hls (List.splitOnP_ne_nil _ cs)
    | cons l ls => rfl

/-! ## Decimal numbers -/

/-- The text consists of decimal digits, of which there is at least one, and denotes the number. -/
def Numeral (cs : List Char) (n : Nat) : Prop :=
  cs ≠ [] ∧ (∀ c ∈ cs, '0' ≤ c ∧ c ≤ '9') ∧
    n = Nat.ofDigits 10 (cs.map fun c => c.toNat - '0'.toNat).reverse

lemma decimalFrom?_eq_some_iff {acc : Nat} :
    decimalFrom? acc cs = some n ↔ (∀ c ∈ cs, '0' ≤ c ∧ c ≤ '9') ∧
      n = Nat.ofDigits 10 (cs.map fun c => c.toNat - '0'.toNat).reverse + 10 ^ cs.length * acc := by
  induction cs generalizing acc with
  | nil => simp [decimalFrom?, eq_comm]
  | cons c cs ih =>
    rw [decimalFrom?]
    split
    · next hc =>
      rw [ih, List.map_cons, Nat.ofDigits_reverse_cons, List.forall_mem_cons]
      have hsum (x a b : Nat) :
          x + 10 ^ cs.length * (10 * a + b) = x + 10 ^ cs.length * b + 10 ^ (cs.length + 1) * a := by
        ring
      simp only [hc, and_self, true_and, List.length_map, List.length_cons, hsum]
    · next hc => simp [hc]

lemma decimal?_eq_some_iff : decimal? cs = some n ↔ Numeral cs n := by
  cases cs with
  | nil => simp [decimal?, Numeral]
  | cons c cs =>
    rw [decimal?, if_neg (by simp), decimalFrom?_eq_some_iff]
    simp [Numeral]

end ScriptLang.Text
