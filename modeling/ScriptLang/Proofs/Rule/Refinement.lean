/-
Running a rule, in the middle of anything else.

Rules are run on branches that are in use.  Between two runs the user may have asked for anything, on
any of the branches, and may have run other rules on them.  The main result is
`Grove.run_refines_scan`: at every such point a rule that is run on a branch that has not left does not
fail, answers what `Rule.scan` says of the characters before the branch, moves the branch by as many
characters, and leaves all else as it was.
-/
import ScriptLang.Proofs.Rule.Scan

namespace ScriptLang

/-- The characters before a branch: those that it has pending, and those that were not pulled yet. -/
def Branch.ahead (b : Branch) (g : Group Reader Char) : List Char :=
  g.pending b.id ++ (g.source.map Reader.rest).getD []

lemma Branch.ahead_eq {text : List Char} {g : Group Reader Char} {q : Nat} {roll : Roll} {b : Branch}
    (h : (Reader.supply text).Follows g q roll) (hb : b.On Reader text roll) :
    b.ahead g = text.drop b.position := by
  obtain ⟨r, hr, rfl⟩ := h.source (List.ne_nil_of_mem hb.listed)
  have hle : b.position ≤ (text.take q).length := by
    rw [List.length_take, Nat.min_eq_left h.pulled]
    exact h.reached _ hb.listed
  rw [Branch.ahead, h.pending_eq hb.listed, hr, Option.map_some, Option.getD_some, Reader.past,
    ← List.drop_append_of_le_length hle, List.take_append_drop]

namespace Rule

/-- A rule does not go over more characters than there are. -/
lemma scan_le (r : Rule) (s : List Char) : (r.scan s).2 ≤ s.length := by
  have hstart : Grove.Sound (Reader.supply s) 0 (Grove.plant 0 (Reader.past s 0)) 0 :=
    Grove.sound_plant rfl
  have hfirst := hstart.on (i := 0) (b := Branch.first 0) rfl rfl
  obtain ⟨g', q', -, -, hg'⟩ := computes_run r _ _ _ _ hstart.follows hfirst
  simpa [Branch.first] using hg'.position_le (hfirst.moved _)

/-- On a branch that has left, a rule either answers at once or fails at once. -/
lemma run_of_gone (r : Rule) {b : Branch} (hb : b.disposed = true) (g : Group Reader Char) :
    (∃ ok, (r.run b).run g = .ok (ok, b) g) ∨ (r.run b).run g = .error .disposed g := by
  have hdead : b.ensureAlive = .error .disposed := by simp [Branch.ensureAlive, hb]
  have htake : ∀ test, (takeIf test b).run g = .error .disposed g := by
    intro test
    rw [takeIf, run_bind_error]
    simp [Branch.peek, hdead]
  have hfork : b.fork.run g = .error .disposed g := by
    simp [Branch.fork, hdead]
  induction r with
  | oneOf chars => exact Or.inr (htake _)
  | noneOf chars => exact Or.inr (htake _)
  | range low high => exact Or.inr (htake _)
  | outside low high => exact Or.inr (htake _)
  | any => exact Or.inr (htake _)
  | satisfying test => exact Or.inr (htake _)
  | empty => exact Or.inl ⟨true, rfl⟩
  | seq first second ih₁ ih₂ =>
    rcases ih₁ with ⟨ok, hfirst⟩ | hfirst
    · rw [run, run_bind_ok hfirst]
      cases ok with
      | true => exact ih₂
      | false => exact Or.inl ⟨false, rfl⟩
    · rw [run, run_bind_error hfirst]
      exact Or.inr rfl
  | alt first second _ _ =>
    rw [run, runAlt, run_bind_error hfork]
    exact Or.inr rfl
  | times content least most _ =>
    show (∃ ok, (runTimes content.run least most b 0 (remaining b g + 1)).run g = .ok (ok, b) g) ∨
      (runTimes content.run least most b 0 (remaining b g + 1)).run g = .error .disposed g
    rw [runTimes]
    split
    · exact Or.inl ⟨_, rfl⟩
    · rw [run_bind_error hfork]
      exact Or.inr rfl

end Rule

namespace Grove

/-- What can happen to a grove over a text: a request, or a rule that is run on a branch. -/
inductive Event where
  | request (r : Request)
  | rule (i : Nat) (r : Rule)

/-- The grove after something has happened. -/
def happen (w : Grove Reader Char) : Event → Grove Reader Char
  | .request r => (w.ask r).2
  | .rule i r =>
    match w.held[i]? with
    | some (some b) =>
      match (r.run b).run w.group with
      | .ok (_, b) group => ⟨group, w.held.set i (some b)⟩
      | .error _ group => ⟨group, w.held⟩
    | _ => w

/-- The grove of a text after a history. -/
def grown (root : Nat) (text : String) (history : List Event) : Grove Reader Char :=
  history.foldl happen (plant root (Reader.ofText text))

section History

variable {text : String} {root q i : Nat} {w : Grove Reader Char} {b : Branch}

/-- A rule that is run on a branch that has not left moves this branch. -/
lemma Sound.run_spec (h : Sound (Reader.supply text.toList) root w q) (hb : w.Live i b)
    (r : Rule) :
    ∃ g' q', (r.run b).run w.group = .ok ((r.scan (b.ahead w.group)).1,
        b.movedTo Reader text.toList (b.position + (r.scan (b.ahead w.group)).2)) g' ∧
      Sound (Reader.supply text.toList) root
        ⟨g', w.held.set i (some
          (b.movedTo Reader text.toList (b.position + (r.scan (b.ahead w.group)).2)))⟩ q' := by
  have hon := h.on hb.1 hb.2
  obtain ⟨g', q', hrun, -, hg'⟩ := Rule.computes_run r _ _ _ _ h.follows hon
  rw [Branch.ahead_eq h.follows hon]
  exact ⟨g', q', hrun, h.move hb.1 hb.2 hg'⟩

lemma Sound.happen (h : Sound (Reader.supply text.toList) root w q) (e : Event) :
    ∃ q', Sound (Reader.supply text.toList) root (w.happen e) q' := by
  cases e with
  | request r =>
    obtain ⟨-, -, q', -, hr, -⟩ := h.ask_spec r
    exact ⟨q', hr⟩
  | rule i r =>
    simp only [Grove.happen]
    split
    · rename_i b hi
      cases hb : b.disposed with
      | true =>
        rcases Rule.run_of_gone r hb w.group with ⟨ok, hrun⟩ | hrun
        · simp only [hrun, set_self hi]
          exact ⟨q, h⟩
        · simp only [hrun]
          exact ⟨q, h⟩
      | false =>
        obtain ⟨g', q', hrun, hsound⟩ := h.run_spec ⟨hi, hb⟩ r
        simp only [hrun]
        exact ⟨q', hsound⟩
    · exact ⟨q, h⟩

lemma sound_grown (root : Nat) (text : String) (history : List Event) :
    ∃ q, Sound (Reader.supply text.toList) root (grown root text history) q := by
  have hrun : ∀ (history : List Event) (w : Grove Reader Char) (q : Nat),
      Sound (Reader.supply text.toList) root w q →
      ∃ q', Sound (Reader.supply text.toList) root (history.foldl Grove.happen w) q' := by
    intro history
    induction history with
    | nil => exact fun w q h => ⟨q, h⟩
    | cons e history ih =>
      intro w q h
      obtain ⟨q', h'⟩ := h.happen e
      exact ih _ q' h'
  exact hrun history _ 0 (sound_plant (Reader.past_zero text).symm)

end History

/-- **Running a rule refines scanning.**  Whatever has happened before, a rule that is run on a branch
with the characters `s` before it answers and moves the branch as `Rule.scan` says of `s`, also where
it does not match.  Nothing else changes: no member joins or leaves, each other branch has the same
characters before it, and the branches go on standing alone. -/
theorem run_refines_scan (root : Nat) (text : String) (history : List Event) (rule : Rule) (i : Nat)
    (b : Branch) (s : List Char) (hb : (grown root text history).Live i b)
    (hs : s = b.ahead (grown root text history).group) :
    ∃ g' b', (rule.run b).run (grown root text history).group = .ok ((rule.scan s).1, b') g' ∧
      (rule.scan s).2 ≤ s.length ∧ b'.position = b.position + (rule.scan s).2 ∧
      b'.place = b.place.advanceOver (s.take (rule.scan s).2) ∧
      b'.ahead g' = s.drop (rule.scan s).2 ∧ b'.id = b.id ∧ b'.disposed = false ∧
      g'.members.map Prod.fst = (grown root text history).group.members.map Prod.fst ∧
      (∀ j c, j ≠ i → (grown root text history).Live j c →
        c.ahead g' = c.ahead (grown root text history).group) ∧
      (∃ q, Stores text.toList ⟨g', (grown root text history).held.set i (some b')⟩ q) ∧
      StandsAlone text ⟨g', (grown root text history).held.set i (some b')⟩ := by
  obtain ⟨q, h⟩ := sound_grown root text history
  generalize grown root text history = w at *
  have hon := h.on hb.1 hb.2
  obtain ⟨g', q', hrun, h'⟩ := h.run_spec hb rule
  rw [← hs] at hrun h'
  have hahead : s = text.toList.drop b.position := by rw [hs, Branch.ahead_eq h.follows hon]
  have hi : i < w.held.length := (List.getElem?_eq_some_iff.mp hb.1).1
  refine ⟨g', _, hrun, Rule.scan_le rule s, rfl, ?_, ?_, rfl, hb.2, ?_, ?_, ⟨q', h'.stores⟩,
    h'.standsAlone⟩
  · rw [hon.place, hahead, placeAt_reader, ← Position.advanceOver_append, ← List.take_add]
    rfl
  · have hlive := h'.on (i := i) (List.getElem?_set_self hi) hb.2
    rw [Branch.ahead_eq h'.follows hlive, hahead, List.drop_drop]
    rfl
  · have hroll := roll_set_of_alive hb.1 hb.2 h.follows.distinct
      (c := b.movedTo Reader text.toList (b.position + (rule.scan s).2)) rfl hb.2
    rw [h'.follows.map_fst_members, h.follows.map_fst_members]
    exact (congrArg Roll.ids hroll).trans (Roll.ids_moved _ _ _)
  · intro j c hj hc
    have hc' : (w.held.set i (some (b.movedTo Reader text.toList
        (b.position + (rule.scan s).2))))[j]? = some (some c) := by
      rw [List.getElem?_set_ne hj.symm]
      exact hc.1
    rw [Branch.ahead_eq h'.follows (h'.on hc' hc.2), Branch.ahead_eq h.follows (h.on hc.1 hc.2)]

/-- A fraction that is not there is given back: of the text `1.x`, of which another branch has read
the first character already, a number takes only that character. -/
theorem run_refines_scan_fraction :
    (grown 0 "1.x" [.request (.fork 0), .request (.read 0)]).Live 1
        ⟨0, 1, 0, Position.start, false⟩ ∧
      Branch.ahead ⟨0, 1, 0, Position.start, false⟩
        (grown 0 "1.x" [.request (.fork 0), .request (.read 0)]).group = ['1', '.', 'x'] ∧
      ∃ g' b', (Rule.run
          (.seq (.range '0' '9') (Rule.optional (.seq (.oneOf ['.']) (.range '0' '9'))))
          ⟨0, 1, 0, Position.start, false⟩).run
            (grown 0 "1.x" [.request (.fork 0), .request (.read 0)]).group = .ok (true, b') g' ∧
        b'.position = 1 ∧ b'.ahead g' = ['.', 'x'] := by
  refine ⟨⟨rfl, rfl⟩, rfl, ?_⟩
  have hscan : Rule.scan
      (.seq (.range '0' '9') (Rule.optional (.seq (.oneOf ['.']) (.range '0' '9'))))
      ['1', '.', 'x'] = (true, 1) := by decide +kernel
  obtain ⟨g', b', hrun, -, hpos, -, hahead, -⟩ :=
    run_refines_scan 0 "1.x" [.request (.fork 0), .request (.read 0)]
      (.seq (.range '0' '9') (Rule.optional (.seq (.oneOf ['.']) (.range '0' '9')))) 1
      ⟨0, 1, 0, Position.start, false⟩ ['1', '.', 'x'] ⟨rfl, rfl⟩ rfl
  rw [hscan] at hrun hpos hahead
  exact ⟨g', b', hrun, hpos, hahead⟩

end Grove

end ScriptLang
