/-
Positions count lines and columns.

The position after a text is made of two counts, of its line feeds and of the characters after the last
one, and each of them stops at the largest number that can be told apart (`Position.advanceOver_start`).  One
step goes up in the order of positions if there is room for it (`Position.Room.compare_advance`).  In a
text of fewer characters than that number no count gets there too early, so the positions after its prefixes
go up all the way, and none of them is the mark for the end of a file (`positions_count_and_ascend`).  In longer
texts positions may repeat (`exists_repeated_position`).
-/
import Mathlib.Algebra.Group.Nat.Defs
import Mathlib.Data.List.DropRight
import Mathlib.Data.List.Chain
import Mathlib.Data.List.Infix
import ScriptLang.Proofs.Stream.Independence

namespace ScriptLang

/-- The characters after the last line feed of a text, or all of them if there is none. -/
def lastLine (cs : List Char) : List Char := cs.rtakeWhile (· ≠ '\n')

lemma lastLine_concat (cs : List Char) (c : Char) :
    lastLine (cs ++ [c]) = if c = '\n' then [] else lastLine cs ++ [c] := by
  simp [lastLine, List.rtakeWhile_concat]

/-- A character is counted in one of the two numbers at most. -/
lemma count_add_length_lastLine_le (cs : List Char) :
    cs.count '\n' + (lastLine cs).length ≤ cs.length := by
  induction cs using List.reverseRecOn with
  | nil => simp [lastLine]
  | append_singleton cs c ih =>
    rw [lastLine_concat, List.count_append, List.length_append]
    by_cases hc : c = '\n'
    · have hle : cs.count '\n' ≤ cs.length := List.count_le_length
      simp [hc, hle]
    · simp [hc]
      omega

namespace Position

lemma limit_eq : limit = 2 ^ 32 - 1 := rfl

/-! ## Lines and columns -/

/-- Counting goes on after the limit was reached, but does not show. -/
lemma bump_min (n : Nat) : bump (min n limit) = min (n + 1) limit := by
  rw [bump]
  omega

/-- **The position after a text.** -/
theorem advanceOver_start (cs : List Char) : start.advanceOver cs =
    ⟨min (1 + cs.count '\n') limit, min (1 + (lastLine cs).length) limit⟩ := by
  induction cs using List.reverseRecOn with
  | nil => rfl
  | append_singleton cs c ih =>
    rw [advanceOver_append, ih, advanceOver_cons, advanceOver_nil, advance, lastLine_concat,
      List.count_append]
    by_cases hc : c = '\n'
    · simp only [hc, if_true, bump_min, List.count_singleton_self, List.length_nil, Nat.add_assoc]
      rfl
    · simp only [hc, if_false, bump_min, List.count_singleton, List.length_append, List.length_singleton,
        Nat.add_assoc, beq_iff_eq, Nat.add_zero]

/-- Both numbers stand at the limit at the end of a file, and a short text has not enough characters to take
them there. -/
lemma advanceOver_start_ne_endOfFile {cs : List Char} (h : cs.length < limit) :
    start.advanceOver cs ≠ endOfFile := by
  intro heq
  have hle := count_add_length_lastLine_le cs
  rw [advanceOver_start, endOfFile, Position.mk.injEq] at heq
  have hlimit : 2 < limit := by decide
  omega

/-! ## The order of positions -/

/-- Positions are ordered by their lines, and in one line by their columns. -/
lemma compare_eq_lt_iff {p q : Position} :
    compare p q = .lt ↔ p.line < q.line ∨ p.line = q.line ∧ p.column < q.column := by
  show (compare p.line q.line).then ((compare p.column q.column).then .eq) = .lt ↔ _
  rw [Ordering.then_eq, Ordering.then_eq_lt, Nat.compare_eq_lt, Nat.compare_eq_eq, Nat.compare_eq_lt]

/-- There is room for `n` more characters: only the last of them may take a number to its limit. -/
structure Room (p : Position) (n : Nat) : Prop where
  line : p.line + n ≤ limit
  column : p.column + n ≤ limit
  counted : 0 < p.column

namespace Room

variable {p : Position} {n : Nat}

/-- A step goes up as long as there is room for it. -/
lemma compare_advance (h : p.Room (n + 1)) (c : Char) : compare p (p.advance c) = .lt := by
  have hline := h.line
  have hcolumn := h.column
  rw [compare_eq_lt_iff, advance]
  by_cases hc : c = '\n'
  · rw [if_pos hc]
    left
    simp only [bump]
    omega
  · rw [if_neg hc]
    right
    simp only [bump, true_and]
    omega

/-- A step takes the room of one character. -/
lemma advance (h : p.Room (n + 1)) (c : Char) : (p.advance c).Room n := by
  obtain ⟨hline, hcolumn, hcounted⟩ := h
  rw [Position.advance]
  by_cases hc : c = '\n'
  · rw [if_pos hc]
    constructor <;> simp only [bump] <;> omega
  · rw [if_neg hc]
    constructor <;> simp only [bump] <;> omega

end Room

/-- Each place that a text passes is followed by a later one, if there is room for the text. -/
lemma isChain_trail {p : Position} {cs : List Char} (h : p.Room cs.length) :
    (p :: p.trail cs).IsChain (compare · · = .lt) := by
  induction cs generalizing p with
  | nil => exact .singleton p
  | cons c cs ih =>
    rw [List.length_cons] at h
    exact .cons_cons (h.compare_advance c) (ih (h.advance c))

/-- So the places go up from each of them to all that come after it. -/
lemma pairwise_trail {p : Position} {cs : List Char} (h : p.Room cs.length) :
    (p :: p.trail cs).Pairwise (compare · · = .lt) := by
  have htrans : IsTrans Position (compare · · = .lt) := by
    refine ⟨fun p q r hpq hqr => ?_⟩
    rw [compare_eq_lt_iff] at hpq hqr ⊢
    omega
  exact (isChain_trail h).pairwise

/-! ## The places of a text -/

/-- The places that a text passes are those after its prefixes. -/
lemma cons_trail_eq_map_inits (p : Position) (cs : List Char) :
    p :: p.trail cs = cs.inits.map p.advanceOver := by
  induction cs generalizing p with
  | nil => rfl
  | cons c cs ih =>
    rw [trail, ih, List.inits_cons, List.map_cons, List.map_map]
    rfl

/-- The positions after the prefixes of a text, from the empty prefix to the whole text. -/
def places (text : String) : List Position := start :: start.trail text.toList

lemma places_eq (text : String) : places text = text.toList.inits.map start.advanceOver :=
  cons_trail_eq_map_inits start text.toList

lemma getElem?_places {text : String} {n : Nat} (h : n ≤ text.toList.length) :
    (places text)[n]? = some (start.advanceOver (text.toList.take n)) := by
  have hlt : n < text.toList.inits.length := by
    rw [List.length_inits]
    omega
  rw [places_eq, List.getElem?_map, List.getElem?_eq_getElem hlt, List.getElem_inits]
  rfl

end Position

/-- **Positions count lines and columns.**  After a text stands the number of its line feeds, and of the
characters after the last one, both counted from one and up to the largest number.  The reader of a text
passes its places one after the other.  A text of fewer characters than the largest number has different
places in ascending order, and none of them is the mark for the end of a file. -/
theorem positions_count_and_ascend (text : String) :
    Position.start.advanceOver text.toList =
      ⟨min (1 + text.toList.count '\n') (2 ^ 32 - 1),
        min (1 + (lastLine text.toList).length) (2 ^ 32 - 1)⟩ ∧
    Position.places text = text.toList.inits.map Position.start.advanceOver ∧
    (∀ n ≤ text.length, (Position.places text)[n]? =
      some ((fun r => (Reader.read r).2)^[n] (Reader.ofText text)).place) ∧
    (text.length < 2 ^ 32 - 1 →
      (Position.places text).Pairwise (compare · · = .lt) ∧ (Position.places text).Nodup ∧
        Position.endOfFile ∉ Position.places text) := by
  refine ⟨Position.advanceOver_start text.toList, Position.places_eq text, fun n hn => ?_,
    fun hlength => ?_⟩
  · rw [← String.length_toList] at hn
    rw [Position.getElem?_places hn, Reader.iterate_read text hn, Reader.past]
  rw [← String.length_toList, ← Position.limit_eq] at hlength
  have hroom : Position.start.Room text.toList.length := by
    constructor <;> simp only [Position.start] <;> omega
  have hascend := Position.pairwise_trail hroom
  refine ⟨hascend, hascend.imp fun {p q} hlt heq => ?_, fun hmem => ?_⟩
  · rw [Position.compare_eq_lt_iff, heq] at hlt
    omega
  · rw [Position.places_eq, List.mem_map] at hmem
    obtain ⟨cs, hcs, hend⟩ := hmem
    have hle := ((List.mem_inits _ _).mp hcs).length_le
    exact Position.advanceOver_start_ne_endOfFile (by omega) hend

/-- An empty line and the characters around it stand at different places. -/
theorem positions_count_and_ascend_lines :
    "ab\n\nc".length < 2 ^ 32 - 1 ∧
      Position.places "ab\n\nc" = [⟨1, 1⟩, ⟨1, 2⟩, ⟨1, 3⟩, ⟨2, 1⟩, ⟨3, 1⟩, ⟨3, 2⟩] ∧
      (Position.places "ab\n\nc").Pairwise (compare · · = .lt) ∧
      Position.endOfFile ∉ Position.places "ab\n\nc" := by
  have hlength : "ab\n\nc".length < 2 ^ 32 - 1 := by decide
  obtain ⟨hascend, -, hend⟩ := (positions_count_and_ascend "ab\n\nc").2.2.2 hlength
  exact ⟨hlength, by decide, hascend, hend⟩

/-- The bound cannot be higher: there are texts of every greater length in which a position repeats. -/
theorem exists_repeated_position {n : Nat} (h : 2 ^ 32 - 1 ≤ n) :
    ∃ text : String, text.length = n ∧ ¬(Position.places text).Nodup := by
  have hlast : ∀ k, lastLine (List.replicate k 'a') = List.replicate k 'a' := by
    intro k
    rw [lastLine, List.rtakeWhile_eq_self_iff]
    intro c hc
    simp [List.eq_of_mem_replicate hc]
  -- In a line that is too long, the column stays where it is in the end.
  have hstay : ∀ k, 2 ^ 32 - 2 ≤ k →
      Position.start.advanceOver (List.replicate k 'a') = ⟨1, Position.limit⟩ := by
    intro k hk
    have hlimit := Position.limit_eq
    rw [Position.advanceOver_start, hlast, List.length_replicate, List.count_eq_zero.mpr (by simp),
      Position.mk.injEq]
    omega
  have hplace : ∀ k ≤ n, 2 ^ 32 - 2 ≤ k →
      (Position.places (String.ofList (List.replicate n 'a')))[k]? = some ⟨1, Position.limit⟩ := by
    intro k hkn hk
    rw [Position.getElem?_places (by simpa using hkn), String.toList_ofList, List.take_replicate,
      Nat.min_eq_left hkn, hstay k hk]
  refine ⟨String.ofList (List.replicate n 'a'), by simp, fun hnodup => ?_⟩
  have hlength : n < (Position.places (String.ofList (List.replicate n 'a'))).length := by
    rw [Position.places_eq, List.length_map, List.length_inits]
    simp
  have hsame := (hplace n (Nat.le_refl n) (by omega)).trans (hplace (n - 1) (by omega) (by omega)).symm
  have heq := (List.getElem?_inj hlength hnodup).mp hsame
  omega

end ScriptLang
