/-
Rules on lists of characters.

A rule is run on a branch, and for that it forks branches, moves them and lets go of them again.  None
of this shows.  `Rule.scan` says on a list of characters whether a rule matches and how many characters
it takes, and running the rule on a branch gives the same answer and moves the branch by as many
characters, while all the other branches of the group stay as they are.

Running is related to scanning by `Rule.Computes`.  There is one lemma for each way of building a rule,
and `Rule.computes_run` puts them together by induction on the rule.
-/
import ScriptLang.Rule
import ScriptLang.Proofs.Stream.Independence

namespace ScriptLang

namespace Rule

/-! ## Scanning -/

/-- Takes the first character if it passes the test. -/
def scanIf (test : Char → Bool) : List Char → Bool × Nat
  | [] => (false, 0)
  | c :: _ => if test c then (true, 1) else (false, 0)

/-- Repeats `scan` on what is left over, after `count` repetitions.  A repetition that fails is taken
back.  A repetition that takes nothing is the last one, and it makes up for those that are missing. -/
def scanTimes (scan : List Char → Bool × Nat) (least : Nat) (most : Option Nat) (count : Nat)
    (s : List Char) : Bool × Nat :=
  if most.any (· ≤ count) then (decide (least ≤ count), 0)
  else
    match scan s with
    | (false, _) => (decide (least ≤ count), 0)
    | (true, n) =>
      if (s.drop n).length < s.length then
        let (ok, m) := scanTimes scan least most (count + 1) (s.drop n)
        (ok, n + m)
      else (true, 0)
termination_by s.length
decreasing_by assumption

/-- One scan after the other, on what the first one leaves.  It stops where a scan fails. -/
def scanSeq (scan₁ scan₂ : List Char → Bool × Nat) (s : List Char) : Bool × Nat :=
  match scan₁ s with
  | (true, n) =>
    let (ok, m) := scan₂ (s.drop n)
    (ok, n + m)
  | (false, n) => (false, n)

/-- The successful scan that takes most, and nothing if both fail. -/
def scanAlt (scan₁ scan₂ : List Char → Bool × Nat) (s : List Char) : Bool × Nat :=
  match scan₁ s, scan₂ s with
  | (true, n), (true, m) => (true, if n < m then m else n)
  | (true, n), (false, _) => (true, n)
  | (false, _), (true, m) => (true, m)
  | (false, _), (false, _) => (false, 0)

/-- Whether a rule matches at the start of a text, and how many characters it goes over.  A rule that
does not match may have gone over some, too. -/
def scan : Rule → List Char → Bool × Nat
  | .oneOf chars => scanIf (chars.contains ·)
  | .noneOf chars => scanIf (!chars.contains ·)
  | .range low high => scanIf (fun c => low ≤ c && c ≤ high)
  | .outside low high => scanIf (fun c => !(low ≤ c && c ≤ high))
  | .any => scanIf (fun _ => true)
  | .satisfying test => scanIf test
  | .empty => fun _ => (true, 0)
  | .seq first second => scanSeq first.scan second.scan
  | .alt first second => scanAlt first.scan second.scan
  | .times content least most => scanTimes content.scan least most 0

/-! ## Running -/

/-- Running `f` on a branch of a group over `text` answers what `m` says of the characters that are
left, moves the branch by as many of them, and moves no other branch. -/
def Computes (text : List Char) (f : Branch → Walk Reader Char (Bool × Branch))
    (m : List Char → Bool × Nat) : Prop :=
  ∀ (g : Group Reader Char) (q : Nat) (roll : Roll) (b : Branch),
    (Reader.supply text).Follows g q roll → b.On Reader text roll →
    ∃ g' q', (f b).run g = .ok ((m (text.drop b.position)).1,
        b.movedTo Reader text (b.position + (m (text.drop b.position)).2)) g' ∧ q ≤ q' ∧
      (Reader.supply text).Follows g' q'
        (roll.moved b.id (b.position + (m (text.drop b.position)).2))

variable {text : List Char}

/-- An answer without a move. -/
lemma computes_stay {g g' : Group Reader Char} {q q' n : Nat} {roll : Roll} {b : Branch} {ok : Bool}
    {walk : Walk Reader Char (Bool × Branch)} (hb : b.On Reader text roll)
    (hg : (Reader.supply text).Follows g' q' roll) (hqq : q ≤ q') (hn : n = 0)
    (hrun : walk.run g = .ok (ok, b) g') :
    ∃ g' q', walk.run g = .ok (ok, b.movedTo Reader text (b.position + n)) g' ∧ q ≤ q' ∧
      (Reader.supply text).Follows g' q' (roll.moved b.id (b.position + n)) := by
  rw [hn, Nat.add_zero, hb.movedTo_self, Roll.moved_self hg.distinct hb.listed]
  exact ⟨g', q', hrun, hqq, hg⟩

lemma computes_takeIf (test : Char → Bool) : Computes text (takeIf test) (scanIf test) := by
  intro g q roll b h hb
  obtain ⟨g', hpeek, hg'⟩ := Branch.peek_spec h hb
  by_cases hend : b.position = text.length
  · have hnil : text.drop b.position = [] := by rw [hend, List.drop_length]
    rw [hnil]
    refine computes_stay hb hg' (Nat.le_max_left _ _) rfl ?_
    rw [lookAt_eq_ending hend] at hpeek
    rw [takeIf, run_bind_ok hpeek]
    rfl
  · have hlt : b.position < text.length := Nat.lt_of_le_of_ne (h.position_le hb) hend
    rw [lookAt_of_lt hlt] at hpeek
    rw [List.drop_eq_getElem_cons hlt]
    cases htest : test text[b.position] with
    | false =>
      have hscan : scanIf test (text[b.position] :: text.drop (b.position + 1)) = (false, 0) := by
        simp [scanIf, htest]
      rw [hscan]
      refine computes_stay hb hg' (Nat.le_max_left _ _) rfl ?_
      rw [takeIf, run_bind_ok hpeek]
      simp [htest]
    | true =>
      have hscan : scanIf test (text[b.position] :: text.drop (b.position + 1)) = (true, 1) := by
        simp [scanIf, htest]
      obtain ⟨g'', hread, hg''⟩ := Branch.read_of_lt hg' hb hlt
      rw [hscan]
      refine ⟨g'', _, ?_, ?_, hg''⟩
      · rw [takeIf, run_bind_ok hpeek]
        simp only [htest, if_true]
        rw [run_bind_ok hread]
        rfl
      · exact Nat.le_trans (Nat.le_max_left _ _) (Nat.le_max_left _ _)

lemma computes_empty : Computes text (fun b => pure (true, b)) (fun _ => (true, 0)) :=
  fun _ q _ _ h hb => computes_stay hb h (Nat.le_refl q) rfl rfl

section Pair

variable {f₁ f₂ : Branch → Walk Reader Char (Bool × Branch)} {m₁ m₂ : List Char → Bool × Nat}

lemma computes_seq (h₁ : Computes text f₁ m₁) (h₂ : Computes text f₂ m₂) :
    Computes text
      (fun b => do
        let (ok, b) ← f₁ b
        if ok then f₂ b else return (false, b))
      (scanSeq m₁ m₂) := by
  intro g q roll b h hb
  obtain ⟨g₁, q₁, hrun₁, hq₁, hg₁⟩ := h₁ g q roll b h hb
  rcases hm₁ : m₁ (text.drop b.position) with ⟨ok, n⟩
  rw [hm₁] at hrun₁ hg₁
  cases ok with
  | false =>
    simp only [scanSeq, hm₁]
    refine ⟨g₁, q₁, ?_, hq₁, hg₁⟩
    rw [run_bind_ok hrun₁]
    rfl
  | true =>
    obtain ⟨g₂, q₂, hrun₂, hq₂, hg₂⟩ := h₂ g₁ q₁ _ _ hg₁ (hb.moved _)
    simp only [Branch.movedTo_position, Branch.movedTo_id, Branch.movedTo_movedTo,
      Roll.moved_moved] at hrun₂ hg₂
    rw [← List.drop_drop, Nat.add_assoc] at hrun₂ hg₂
    simp only [scanSeq, hm₁]
    refine ⟨g₂, q₂, ?_, Nat.le_trans hq₁ hq₂, hg₂⟩
    rw [run_bind_ok hrun₁]
    exact hrun₂

/-- Two forks `l` and `r` of `b` are the last members of a group. -/
structure Forked (text : List Char) (g : Group Reader Char) (q : Nat) (roll : Roll)
    (b l r : Branch) : Prop where
  follows : (Reader.supply text).Follows g q (roll ++ [(l.id, l.position)] ++ [(r.id, r.position)])
  on_left : l.On Reader text (roll ++ [(l.id, l.position)] ++ [(r.id, r.position)])
  on_right : r.On Reader text (roll ++ [(l.id, l.position)] ++ [(r.id, r.position)])
  root_left : b.root = l.root
  root_right : b.root = r.root
  new_left : l.id ∉ roll.ids
  new_right : r.id ∉ roll.ids
  ne : r.id ≠ l.id

namespace Forked

variable {g : Group Reader Char} {q : Nat} {roll : Roll} {b l r : Branch}

/-- The branch from which the forks were made moves to one of them. -/
lemma merge (h : Forked text g q roll b l r) (hb : b.On Reader text roll) {w : Branch}
    (hw : w = l ∨ w = r) :
    ∃ units g', (b.merge w).run g = .ok (units, b.movedTo Reader text w.position) g' ∧
      Forked text g' q (roll.moved b.id w.position) (b.movedTo Reader text w.position) l r := by
  have hl : l.id ≠ b.id := fun hid => h.new_left (hid ▸ Roll.mem_ids_of_mem hb.listed)
  have hr : r.id ≠ b.id := fun hid => h.new_right (hid ▸ Roll.mem_ids_of_mem hb.listed)
  have hon : w.On Reader text (roll ++ [(l.id, l.position)] ++ [(r.id, r.position)]) ∧
      b.root = w.root := by
    rcases hw with rfl | rfl
    · exact ⟨h.on_left, h.root_left⟩
    · exact ⟨h.on_right, h.root_right⟩
  obtain ⟨g', hrun, hg'⟩ := Branch.merge_spec h.follows ((hb.append _).append _) hon.1 hon.2
  have hroll : (roll ++ [(l.id, l.position)] ++ [(r.id, r.position)]).moved b.id w.position =
      roll.moved b.id w.position ++ [(l.id, l.position)] ++ [(r.id, r.position)] := by
    simp only [Roll.moved_append, Roll.moved_single_of_ne hl, Roll.moved_single_of_ne hr]
  have hl' := h.on_left.moved_of_ne hl w.position
  have hr' := h.on_right.moved_of_ne hr w.position
  rw [hroll] at hg' hl' hr'
  refine ⟨_, g', hrun, hg', hl', hr', h.root_left, h.root_right, ?_, ?_, h.ne⟩
  · simpa using h.new_left
  · simpa using h.new_right

/-- Two forks that are not needed any more leave no trace. -/
lemma dispose (h : Forked text g q roll b l r) {β : Type} (a : β) :
    ∃ g', EStateM.run (do
        let _ ← l.dispose
        let _ ← r.dispose
        return a : Walk Reader Char β) g = .ok a g' ∧
      (Reader.supply text).Follows g' q roll := by
  obtain ⟨hleave₁, hg₁⟩ := Branch.dispose_spec h.follows h.on_left
  obtain ⟨hleave₂, hg₂⟩ := Branch.dispose_spec hg₁ (h.on_right.without_of_ne h.ne)
  have hroll : ((roll ++ [(l.id, l.position)] ++ [(r.id, r.position)]).without l.id).without r.id =
      roll := by
    simp only [Roll.without_append, Roll.without_of_notMem h.new_left,
      Roll.without_of_notMem h.new_right, Roll.without_single, Roll.without_single_of_ne h.ne,
      List.append_nil]
  rw [hroll] at hg₂
  refine ⟨_, ?_, hg₂⟩
  rw [run_bind_ok hleave₁, run_bind_ok hleave₂]
  rfl

end Forked

/-- Each side of a choice moves a fork of its own. -/
lemma forked_of_computes (h₁ : Computes text f₁ m₁) (h₂ : Computes text f₂ m₂)
    {g : Group Reader Char} {q : Nat} {roll : Roll} {b : Branch}
    (h : (Reader.supply text).Follows g q roll) (hb : b.On Reader text roll) :
    ∃ l₀ g₁ r₀ g₂ l g₃ r g₄ q₄, b.fork.run g = .ok l₀ g₁ ∧ b.fork.run g₁ = .ok r₀ g₂ ∧
      (f₁ l₀).run g₂ = .ok ((m₁ (text.drop b.position)).1, l) g₃ ∧
      (f₂ r₀).run g₃ = .ok ((m₂ (text.drop b.position)).1, r) g₄ ∧ q ≤ q₄ ∧
      l.position = b.position + (m₁ (text.drop b.position)).2 ∧
      r.position = b.position + (m₂ (text.drop b.position)).2 ∧
      Forked text g₄ q₄ roll b l r := by
  obtain ⟨g₁, hfork₁, hg₁, hi, hl⟩ := Branch.fork_spec h hb
  generalize g.nextId = i at *
  obtain ⟨g₂, hfork₂, hg₂, hj, hr⟩ := Branch.fork_spec hg₁ (hb.append _)
  generalize g₁.nextId = j at *
  have hjroll : j ∉ roll.ids := fun hmem => hj (by simp [hmem])
  have hji : j ≠ i := fun hid => hj (by simp [hid, Roll.ids])
  obtain ⟨g₃, q₃, hrun₁, hq₃, hg₃⟩ := h₁ g₂ q _ _ hg₂ (hl.append _)
  obtain ⟨g₄, q₄, hrun₂, hq₄, hg₄⟩ := h₂ g₃ q₃ _ _ hg₃ (hr.moved_of_ne hji _)
  have hroll : ∀ x y, ((roll ++ [(i, b.position)] ++ [(j, b.position)]).moved i x).moved j y =
      roll ++ [(i, x)] ++ [(j, y)] := by
    intro x y
    simp only [Roll.moved_append, Roll.moved_of_notMem hi, Roll.moved_of_notMem hjroll,
      Roll.moved_single_self, Roll.moved_single_of_ne hji, Roll.moved_single_of_ne hji.symm]
  simp only [hroll] at hg₄
  refine ⟨_, g₁, _, g₂, _, g₃, _, g₄, q₄, hfork₁, hfork₂, hrun₁, hrun₂, Nat.le_trans hq₃ hq₄, rfl,
    rfl, hg₄, ⟨hb.alive, by simp, rfl⟩, ⟨hb.alive, by simp, rfl⟩, rfl, rfl, hi, hjroll, hji⟩

/-- The longer side of a choice. -/
lemma computes_runAlt (h₁ : Computes text f₁ m₁) (h₂ : Computes text f₂ m₂) :
    Computes text (runAlt f₁ f₂) (scanAlt m₁ m₂) := by
  intro g q roll b h hb
  obtain ⟨l₀, g₁, r₀, g₂, l, g₃, r, g₄, q₄, hfork₁, hfork₂, hrun₁, hrun₂, hq, hlpos, hrpos, hforked⟩ :=
    forked_of_computes h₁ h₂ h hb
  rcases hm₁ : m₁ (text.drop b.position) with ⟨ok₁, n₁⟩
  rcases hm₂ : m₂ (text.drop b.position) with ⟨ok₂, n₂⟩
  rw [hm₁] at hrun₁ hlpos
  rw [hm₂] at hrun₂ hrpos
  rw [runAlt, run_bind_ok hfork₁, run_bind_ok hfork₂, run_bind_ok hrun₁, run_bind_ok hrun₂]
  simp only [scanAlt, hm₁, hm₂]
  -- a side that wins takes the branch along
  have hwin : ∀ w n, (w = l ∨ w = r) → w.position = b.position + n →
      ∃ g' q', EStateM.run (do
          let merged ← b.merge w
          let _ ← l.dispose
          let _ ← r.dispose
          return (true, merged.2) : Walk Reader Char (Bool × Branch)) g₄ =
            .ok (true, b.movedTo Reader text (b.position + n)) g' ∧ q ≤ q' ∧
        (Reader.supply text).Follows g' q' (roll.moved b.id (b.position + n)) := by
    intro w n hw hpos
    obtain ⟨units, g₅, hmerge, hforked'⟩ := hforked.merge hb hw
    rw [hpos] at hmerge hforked'
    obtain ⟨g', hdispose, hg'⟩ := hforked'.dispose (true, b.movedTo Reader text (b.position + n))
    refine ⟨g', q₄, ?_, hq, hg'⟩
    rw [run_bind_ok hmerge]
    exact hdispose
  cases ok₁ with
  | false =>
    cases ok₂ with
    | false =>
      obtain ⟨g', hdispose, hg'⟩ := hforked.dispose (false, b)
      exact computes_stay hb hg' hq rfl hdispose
    | true => exact hwin r n₂ (.inr rfl) hrpos
  | true =>
    cases ok₂ with
    | false => exact hwin l n₁ (.inl rfl) hlpos
    | true =>
      by_cases hlt : n₁ < n₂
      · have hlt' : l.position < r.position := by omega
        simp only [hlt, hlt', if_true]
        exact hwin r n₂ (.inr rfl) hrpos
      · have hlt' : ¬ l.position < r.position := by omega
        simp only [hlt, hlt', if_false]
        exact hwin l n₁ (.inl rfl) hlpos

end Pair

/-- The fork `c` of `b`, on which something was tried, is the last member of a group. -/
structure Tried (text : List Char) (g : Group Reader Char) (q : Nat) (roll : Roll)
    (b c : Branch) : Prop where
  follows : (Reader.supply text).Follows g q (roll ++ [(c.id, c.position)])
  on : c.On Reader text (roll ++ [(c.id, c.position)])
  root : b.root = c.root
  new : c.id ∉ roll.ids

section Single

variable {f : Branch → Walk Reader Char (Bool × Branch)} {m : List Char → Bool × Nat}
  {g : Group Reader Char} {q : Nat} {roll : Roll} {b c : Branch}

lemma tried_of_computes (hf : Computes text f m) (h : (Reader.supply text).Follows g q roll)
    (hb : b.On Reader text roll) :
    ∃ c₀ g₁ c g₂ q₂, b.fork.run g = .ok c₀ g₁ ∧
      (f c₀).run g₁ = .ok ((m (text.drop b.position)).1, c) g₂ ∧ q ≤ q₂ ∧
      c.position = b.position + (m (text.drop b.position)).2 ∧ Tried text g₂ q₂ roll b c := by
  obtain ⟨g₁, hfork, hg₁, hi, hc⟩ := Branch.fork_spec h hb
  generalize g.nextId = i at *
  obtain ⟨g₂, q₂, hrun, hq₂, hg₂⟩ := hf g₁ q _ _ hg₁ hc
  have hroll : ∀ x, (roll ++ [(i, b.position)]).moved i x = roll ++ [(i, x)] := by
    intro x
    rw [Roll.moved_append, Roll.moved_of_notMem hi, Roll.moved_single_self]
  simp only [hroll] at hg₂
  exact ⟨_, g₁, _, g₂, q₂, hfork, hrun, hq₂, rfl, hg₂, ⟨hb.alive, by simp, rfl⟩, rfl, hi⟩

/-- The branch moves to where the fork stands, over the characters that the fork took. -/
lemma Tried.merge (h : Tried text g q roll b c) (hb : b.On Reader text roll)
    (hle : b.position ≤ c.position) :
    ∃ g', (b.merge c).run g =
        .ok (Option.some ((text.drop b.position).take (c.position - b.position)),
          b.movedTo Reader text c.position) g' ∧
      Tried text g' q (roll.moved b.id c.position) (b.movedTo Reader text c.position) c := by
  have hne : c.id ≠ b.id := fun hid => h.new (hid ▸ Roll.mem_ids_of_mem hb.listed)
  obtain ⟨g', hrun, hg'⟩ := Branch.merge_spec h.follows (hb.append _) h.on h.root
  rw [if_pos hle] at hrun
  have hroll : (roll ++ [(c.id, c.position)]).moved b.id c.position =
      roll.moved b.id c.position ++ [(c.id, c.position)] := by
    rw [Roll.moved_append, Roll.moved_single_of_ne hne]
  have hon := h.on.moved_of_ne hne c.position
  rw [hroll] at hg' hon
  exact ⟨g', hrun, hg', hon, h.root, by simpa using h.new⟩

/-- A fork that is not needed any more leaves no trace. -/
lemma Tried.release (h : Tried text g q roll b c) :
    c.release.run g = .ok { c with disposed := true } (g.leave c.id) ∧
      (Reader.supply text).Follows (g.leave c.id) q roll := by
  obtain ⟨hrun, hg'⟩ := Branch.release_spec h.follows h.on
  rw [Roll.without_append, Roll.without_of_notMem h.new, Roll.without_single, List.append_nil] at hg'
  exact ⟨hrun, hg'⟩

/-- Repetition.  A repetition that is followed by another one has taken a character, so the bound
exceeds the characters that are left. -/
lemma runTimes_spec (hf : Computes text f m) (least : Nat) (most : Option Nat) (count bound : Nat)
    (h : (Reader.supply text).Follows g q roll) (hb : b.On Reader text roll)
    (hbound : text.length - b.position < bound) :
    ∃ g' q', (runTimes f least most b count bound).run g =
        .ok ((scanTimes m least most count (text.drop b.position)).1,
          b.movedTo Reader text
            (b.position + (scanTimes m least most count (text.drop b.position)).2)) g' ∧ q ≤ q' ∧
      (Reader.supply text).Follows g' q'
        (roll.moved b.id
          (b.position + (scanTimes m least most count (text.drop b.position)).2)) := by
  induction bound generalizing g q roll b count with
  | zero => omega
  | succ bound ih =>
    rw [runTimes, scanTimes]
    by_cases hmost : most.any (· ≤ count)
    · simp only [hmost, if_true]
      exact computes_stay hb h (Nat.le_refl q) rfl rfl
    · obtain ⟨c₀, g₁, c, g₂, q₂, hfork, hrun, hq₂, hpos, htried⟩ := tried_of_computes hf h hb
      rcases hm : m (text.drop b.position) with ⟨ok, n⟩
      rw [hm] at hrun hpos
      rw [if_neg hmost, if_neg hmost, run_bind_ok hfork, run_bind_ok hrun]
      cases ok with
      | false =>
        obtain ⟨hrelease, hg₃⟩ := htried.release
        refine computes_stay hb hg₃ hq₂ rfl ?_
        show EStateM.run (do let _ ← c.release; return (decide (least ≤ count), b)) g₂ = _
        rw [run_bind_ok hrelease]
        rfl
      | true =>
        have hle : c.position ≤ text.length := htried.follows.position_le htried.on
        obtain ⟨g₃, hmerge, htried'⟩ := htried.merge hb (by omega)
        obtain ⟨hrelease, hg₄⟩ := htried'.release
        simp only [if_true]
        rw [run_bind_ok hmerge]
        simp only
        rw [run_bind_ok hrelease]
        by_cases hn : 0 < n
        · have hlen : ((text.drop b.position).drop n).length < (text.drop b.position).length := by
            simp only [List.length_drop]
            omega
          have hadv : b.position < c.position := by omega
          obtain ⟨g₅, q₅, hrest, hq₅, hg₅⟩ := ih (count + 1) hg₄ (hb.moved c.position)
            (by simp only [Branch.movedTo_position]; omega)
          simp only [Branch.movedTo_position, Branch.movedTo_id, Branch.movedTo_movedTo,
            Roll.moved_moved, hpos, ← List.drop_drop, Nat.add_assoc] at hrest hg₅
          rw [if_pos hadv, if_pos hlen, hpos]
          exact ⟨g₅, q₅, hrest, Nat.le_trans hq₂ hq₅, hg₅⟩
        · obtain rfl : n = 0 := by omega
          have hlen : ¬ ((text.drop b.position).drop 0).length < (text.drop b.position).length := by
            simp
          have hadv : ¬ b.position < c.position := by omega
          rw [if_neg hadv, if_neg hlen]
          have hmax : decide (least ≤ max (count + 1) least) = true :=
            decide_eq_true (Nat.le_max_right _ _)
          rw [hpos] at hg₄ ⊢
          exact ⟨_, q₂, by rw [hmax]; rfl, hq₂, hg₄⟩

/-- How many characters a branch can still read. -/
lemma remaining_eq (h : (Reader.supply text).Follows g q roll) (hb : b.On Reader text roll) :
    remaining b g = text.length - b.position := by
  obtain ⟨r, hr, rfl⟩ := h.source (List.ne_nil_of_mem hb.listed)
  have hle : b.position ≤ q := h.reached _ hb.listed
  have hq := h.pulled
  simp only [remaining, h.pending_eq hb.listed, hr, Option.map_some, Option.getD_some, Reader.past,
    List.length_drop, List.length_take]
  omega

lemma computes_times (hf : Computes text f m) (least : Nat) (most : Option Nat) :
    Computes text
      (fun b => do
        let g ← get
        runTimes f least most b 0 (remaining b g + 1))
      (scanTimes m least most 0) := by
  intro g q roll b h hb
  refine runTimes_spec hf least most 0 (remaining b g + 1) h hb ?_
  rw [remaining_eq h hb]
  exact Nat.lt_succ_self _

end Single

/-- **Running is scanning.** -/
lemma computes_run (r : Rule) : Computes text r.run r.scan := by
  induction r with
  | oneOf chars => exact computes_takeIf _
  | noneOf chars => exact computes_takeIf _
  | range low high => exact computes_takeIf _
  | outside low high => exact computes_takeIf _
  | any => exact computes_takeIf _
  | satisfying test => exact computes_takeIf _
  | empty => exact computes_empty
  | seq first second ih₁ ih₂ => exact computes_seq ih₁ ih₂
  | alt first second ih₁ ih₂ => exact computes_runAlt ih₁ ih₂
  | times content least most ih => exact computes_times ih least most

/-! ## Characters that a rule does not take -/

/-- Whether a rule can do without a character: no part of it takes it. -/
def avoids (ch : Char) : Rule → Bool
  | .oneOf chars => !chars.contains ch
  | .noneOf chars => chars.contains ch
  | .range low high => !(low ≤ ch && ch ≤ high)
  | .outside low high => low ≤ ch && ch ≤ high
  | .any => false
  | .satisfying test => !test ch
  | .empty => true
  | .seq first second => first.avoids ch && second.avoids ch
  | .alt first second => first.avoids ch && second.avoids ch
  | .times content _ _ => content.avoids ch

lemma not_mem_scanIf {test : Char → Bool} {ch : Char} (h : test ch = false) (s : List Char) :
    ch ∉ s.take (scanIf test s).2 := by
  cases s with
  | nil => simp
  | cons c s =>
    by_cases hc : test c = true
    · have hne : ch ≠ c := by
        rintro rfl
        rw [h] at hc
        cases hc
      simpa [scanIf, hc] using hne
    · simp [scanIf, hc]

lemma not_mem_take_add {ch : Char} {s : List Char} {n m : Nat} (hn : ch ∉ s.take n)
    (hm : ch ∉ (s.drop n).take m) : ch ∉ s.take (n + m) := by
  rw [List.take_add, List.mem_append, not_or]
  exact ⟨hn, hm⟩

lemma not_mem_scanTimes {scan : List Char → Bool × Nat} {ch : Char}
    (h : ∀ s : List Char, ch ∉ s.take (scan s).2) (least : Nat) (most : Option Nat) (count : Nat)
    (s : List Char) : ch ∉ s.take (scanTimes scan least most count s).2 := by
  fun_induction scanTimes scan least most count s with
  | case1 => simp
  | case2 => simp
  | case3 count s _ n hscan _ ok m hrest ih =>
    have hfirst := h s
    rw [hscan] at hfirst
    rw [hrest] at ih
    exact not_mem_take_add hfirst ih
  | case4 => simp

/-- The characters that a rule takes are not those that it avoids. -/
lemma not_mem_take_scan {ch : Char} {r : Rule} (h : r.avoids ch = true) (s : List Char) :
    ch ∉ s.take (r.scan s).2 := by
  induction r generalizing s with
  | any => cases h
  | oneOf | range | satisfying =>
    exact not_mem_scanIf (by simpa only [avoids, Bool.not_eq_true'] using h) s
  | noneOf | outside =>
    exact not_mem_scanIf (by simpa only [avoids, Bool.not_eq_false'] using h) s
  | empty => simp [scan]
  | seq first second ih₁ ih₂ =>
    obtain ⟨h₁, h₂⟩ := Bool.and_eq_true_iff.mp h
    have hfirst := ih₁ h₁ s
    rw [scan, scanSeq]
    split
    next n hscan =>
      rw [hscan] at hfirst
      exact not_mem_take_add hfirst (ih₂ h₂ _)
    next n hscan =>
      rw [hscan] at hfirst
      exact hfirst
  | alt first second ih₁ ih₂ =>
    obtain ⟨h₁, h₂⟩ := Bool.and_eq_true_iff.mp h
    have hfirst := ih₁ h₁ s
    have hsecond := ih₂ h₂ s
    rw [scan, scanAlt]
    split
    next hscan₁ hscan₂ =>
      rw [hscan₁] at hfirst
      rw [hscan₂] at hsecond
      dsimp only
      split <;> assumption
    next hscan₁ _ =>
      rw [hscan₁] at hfirst
      exact hfirst
    next _ hscan₂ =>
      rw [hscan₂] at hsecond
      exact hsecond
    next => simp
  | times content least most ih => exact not_mem_scanTimes (ih h) least most 0 s

end Rule

end ScriptLang
