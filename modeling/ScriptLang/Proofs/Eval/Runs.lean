/-
Runs follow every regime.

Every step follows a regime if the evaluator behind it does, so the evaluators of the language do
(`Evaluator.within_heeds`), and all the parts of a run are allowed (`Part.allowed`), each led to by the
part around it (`Part.lead`).  With more steps at hand an evaluator does the same, unless the bound was
reached (`Evaluator.within_extended`).
-/
import ScriptLang.Proofs.Eval.FlowRules

namespace ScriptLang

variable {α β : Type} {R : Regime} {n k : Nat} {t t' : Task} {s₀ s s' : State}

/-! ## One step -/

lemma Exec.after_asCall {m : Exec α} (hd : s.depth < s.config.maxCallDepth) :
    (Exec.asCall m).after s = (m.after s.entered).left := by
  cases h : m.run s.entered with
  | ok a s' => rw [after_of_ok h, after_of_ok (run_asCall_of_ok hd h)]
  | error e s' => rw [after_of_error h, after_of_error (run_asCall_of_error hd h)]

namespace Tracks

variable {m m' : Evaluator → Exec α} {Q P : α → State → Prop}

/-- An effect before the rest. -/
lemma after_effect {x : Exec β} {b : β} {m m' : β → Evaluator → Exec α} (hx : x.run s = .ok b s')
    (hkept : R.Kept s s') (h : Tracks R n t s₀ (m b) (m' b) s' Q) :
    Tracks R n t s₀ (fun ev => x >>= fun b => m b ev) (fun ev => x >>= fun b => m' b ev) s Q where
  outcome := fun self hself => by
    rw [run_bind_ok hx]
    have hleft := h.outcome self hself
    cases hr : (m b self).run s' with
    | ok a s'' =>
      rw [hr] at hleft
      exact ⟨R.trans hkept hleft.1, hleft.2⟩
    | error e s'' =>
      rw [hr] at hleft
      exact ⟨R.near_trans hkept hleft.1, hleft.2⟩
  asked := fun self hself t' s'' ha => by
    exact h.asked self hself t' s'' (ha.congr_from fun _ => run_bind_ok hx)
  persists := fun self hself t' s'' ha => by
    rw [Exec.after_bind_of_ok hx]
    exact h.persists self hself t' s'' (ha.congr_from fun _ => run_bind_ok hx)
  extended := fun self other hself hother => by
    rw [run_bind_ok hx, run_bind_ok hx]
    exact h.extended self other hself hother

/-- What is done one level deeper is done in a call. -/
lemma asCall (hs : R.Good s) (h : s.depth < s.config.maxCallDepth → Tracks R n t s₀ m m' s.entered P)
    (hPQ : ∀ a s', P a s' → Q a s'.left) :
    Tracks R n t s₀ (fun ev => Exec.asCall (m ev)) (fun ev => Exec.asCall (m' ev)) s Q where
  outcome := fun self hself => by
    by_cases hd : s.depth < s.config.maxCallDepth
    · have hleft := (h hd).outcome self hself
      cases hr : (m self).run s.entered with
      | ok a s' =>
        rw [hr] at hleft
        rw [Exec.run_asCall_of_ok hd hr]
        exact ⟨R.left hleft.1, hPQ a s' hleft.2⟩
      | error e s' =>
        rw [hr] at hleft
        rw [Exec.run_asCall_of_error hd hr]
        exact ⟨R.near_left hleft.1, fun he => R.stalls_left (hleft.2 he)⟩
    · rw [Exec.run_asCall_of_le (Nat.not_lt.mp hd)]
      exact ⟨R.near (R.refl hs), nofun⟩
  asked := fun self hself t' s' ha => by
    obtain ⟨hd, hask⟩ := Evaluator.asks_asCall ha
    exact (h hd).asked self hself t' s' hask
  persists := fun self hself t' s' ha => by
    obtain ⟨hd, hask⟩ := Evaluator.asks_asCall ha
    rw [Exec.after_asCall hd]
    exact (h hd).persists self hself t' s' hask
  extended := fun self other hself hother => by
    by_cases hd : s.depth < s.config.maxCallDepth
    · exact ((h hd).extended self other hself hother).asCall
    · have hle := Nat.not_lt.mp hd
      rw [Exec.run_asCall_of_le hle, Exec.run_asCall_of_le hle]
      exact .refl _

end Tracks

/-- Every step follows the regime. -/
theorem Task.tracks (hs : R.Good s) (ht : R.Does (n + 1) s t) :
    Tracks R n t s (fun ev => ev.step t) (fun ev => ev.step t) s (R.Fulfils t s) := by
  have hplain : t.isCall = false → R.Inside n t s s := by
    intro hcall
    refine ⟨hs, ht, by simp [hcall], ?_⟩
    rw [Task.inside_of_not_isCall hcall]
    exact R.refl hs
  have hinside : ∀ s', t.enters s = true → s.depth < s.config.maxCallDepth → R.Kept s.entered s' →
      R.Inside n t s s' := by
    intro s' henters hd hkept
    refine ⟨hs, ht, fun _ => ⟨henters, hd⟩, ?_⟩
    rwa [Task.inside_of_enters henters]
  cases t with
  | evaluate c e => exact Agrees.located (Obeys.evaluateForm c e) (hplain rfl)
  | assign c e v => exact Agrees.located (Obeys.assignForm c e v) (hplain rfl)
  | execute c st => exact Agrees.located (Obeys.executeForm c st) (hplain rfl)
  | sequence c body => exact Obeys.runSequence c body (hplain rfl)
  | host f request => exact Obeys.callHost f request (hplain rfl)
  | call c callee args =>
    refine Obeys.callValue rfl (fun v hv => ?_) (hplain rfl)
    exact R.sound_of_mem_values (hplain rfl) (List.mem_cons_of_mem callee hv)
  | getMember c v name =>
    refine Obeys.memberOf rfl name ?_ (hplain rfl)
    exact R.sound_of_mem_values (hplain rfl) List.mem_cons_self
  | invoke frame decl args =>
    -- The context of the call is made before the call is counted.
    have hcontext : (Exec.newContext frame).run s =
        .ok (frame.context ⟨s.scopes.size⟩) s.opened := by
      cases frame <;> rfl
    have hopened := R.opened hs
    refine .after_effect hcontext hopened (.asCall (R.good hopened) (fun hd => ?_) fun _ _ h => h)
    exact Obeys.runIn (hinside _ rfl hd (R.opened (R.entered hs)))
  | setUp c id i args =>
    cases hcls : s.registry.get? id with
    | none =>
      have hrun : ∀ ev : Evaluator, (ev.step (.setUp c id i args)).run s =
          .error (.fault ⟨.notAClass ("class #" ++ toString id.index), none⟩) s :=
        fun ev => run_bind_error (Exec.run_classOf_none hcls)
      refine ⟨fun self _ => ?_, fun self _ t' s' ha => ?_, fun self _ t' s' ha => ?_,
        fun self other _ _ => ?_⟩
      · rw [hrun]
        exact ⟨R.near (R.refl hs), by simp⟩
      · obtain ⟨other, -, hne⟩ := ha
        exact absurd ((hrun other).trans (hrun self).symm) hne
      · obtain ⟨other, -, hne⟩ := ha
        exact absurd ((hrun other).trans (hrun self).symm) hne
      · rw [hrun, hrun]
        exact .refl _
    | some cls =>
      have henters : (Task.setUp c id i args).enters s = true := by simp [Task.enters, hcls]
      refine .after_effect (Exec.run_classOf hcls) (R.refl hs) (.asCall
        (P := fun _ s' => (s.heap.instance? i).isSome → s'.SetUpAs i id) hs (fun hd => ?_)
        fun _ _ h hi => (h hi).of_eq rfl rfl)
      exact Obeys.setUpAs hcls (hinside _ henters hd (R.refl (R.entered hs)))

/-! ## Evaluators -/

namespace Evaluator

/-- The evaluators of the language keep every regime. -/
theorem within_heeds (R : Regime) (n : Nat) : (within n).Heeds R n := by
  induction n with
  | zero =>
    refine ⟨rfl, fun t s hs ht => ?_⟩
    exact ⟨R.near (R.refl hs), fun _ => R.exhausted hs ht⟩
  | succ n ih => exact ⟨rfl, fun t s hs ht => (t.tracks hs ht).outcome (within n) ih⟩

end Evaluator

namespace Regime

/-- The regime of all code: states only grow. -/
def growing : Regime where
  Good := fun _ => True
  Kept := State.Grows
  Near := State.Grows
  Knows := fun _ _ => True
  Does := fun _ _ _ => True
  Stalls := fun _ => True
  refl := fun _ => .refl _
  trans := State.Grows.trans
  good := fun _ => trivial
  near := id
  near_trans := State.Grows.trans
  grows := id
  opened := fun _ => .opened _
  entered := fun _ => trivial
  left := State.Grows.left
  near_left := State.Grows.left
  knows := fun _ _ => trivial
  registered := fun _ _ => trivial
  stored := fun _ _ _ _ => trivial
  given := fun _ _ _ _ _ => trivial
  brought := fun _ _ _ => trivial
  operated := fun _ _ => trivial
  handled := fun _ _ h => h
  change := fun _ h => h.grows fun _ _ => id
  lead := fun _ _ => ⟨trivial, trivial⟩
  constructed := fun _ h _ => (State.Grows.withInstance _ _).trans h
  abandoned := fun _ h => (State.Grows.withInstance _ _).trans h
  exhausted := fun _ _ => trivial
  endless := fun _ _ => trivial
  stalls_left := id
  halting := .inl fun _ _ => trivial

end Regime

namespace Evaluator

/-- With one more step at hand an evaluator does the same, unless the bound was reached. -/
lemma within_extended_succ (n : Nat) : (within n).Extended (within (n + 1)) := by
  induction n with
  | zero => exact ⟨Nat.zero_le _, fun t s => .inr ⟨s, rfl⟩⟩
  | succ n ih =>
    refine ⟨Nat.le_succ _, fun t s => ?_⟩
    have htracks := t.tracks (R := .growing) (n := n) (s := s) trivial trivial
    exact htracks.extended (within n) (within (n + 1)) (within_heeds .growing n) ih

/-- An outcome that is no matter of the bound stays the same with more steps at hand. -/
theorem within_extended {r : EStateM.Result Halt State t.Answer}
    (hr : ((within n).perform t).run s = r) (hdone : ∀ s', r ≠ .error .exhausted s')
    (hle : n ≤ k) : ((within k).perform t).run s = r := by
  induction hle with
  | refl => exact hr
  | step _ ih =>
    rcases (within_extended_succ _).perform t s with heq | ⟨s', hexhausted⟩
    · exact heq.trans ih
    · exact absurd (ih.symm.trans hexhausted) (hdone s')

lemma within_extended_of_le (hle : n ≤ k) : (within n).Extended (within k) := by
  refine ⟨?_, fun t s => ?_⟩
  · rwa [(within_heeds .growing n).bound, (within_heeds .growing k).bound]
  · by_cases hdone : ∃ s', ((within n).perform t).run s = .error .exhausted s'
    · exact .inr hdone
    · exact .inl (within_extended rfl (not_exists.mp hdone) hle)

/-- Code only ever adds to a state. -/
lemma grows_of_ok {a : t.Answer} (h : ((within n).perform t).run s = .ok a s') : s.Grows s' := by
  have hleft := (within_heeds .growing n).perform t s trivial trivial
  rw [h] at hleft
  exact hleft.1

end Evaluator

/-! ## The parts of a run -/

/-- A task is performed in the state `s` that led to it, or an instance is made that it sets up. -/
def Task.Enters (t : Task) (s s' : State) : Prop :=
  s' = s ∨ ∃ c id args, t = .setUp c id s.nextInstance args ∧ s' = s.withInstance id

lemma Task.Enters.grows (h : t.Enters s s') : s.Grows s' := by
  rcases h with rfl | ⟨c, id, args, -, rfl⟩
  · exact .refl _
  · exact .withInstance s id

lemma Lead.enters {K : State → State → Prop} {V : Value → State → Prop}
    (h : Lead K V t s₀ s t' s') : t'.Enters s s' := by
  cases h with
  | constructed => exact .inr ⟨_, _, _, rfl, rfl⟩
  | _ => exact .inl rfl

namespace Part

variable {m : Evaluator → Exec α} {trail : List Task}

/-- All the parts of a run are allowed, if those are that the run asks for. -/
theorem allowed (R : Regime) (hpart : Part n m s trail k t s')
    (hm : ∀ t s', (Evaluator.within n).Asks m s t s' → R.Good s' ∧ R.Does n s' t) :
    R.Good s' ∧ R.Does k s' t := by
  induction hpart with
  | asked ha => exact hm _ _ ha
  | @inner trail k t s' t' s'' _ ha ih =>
    obtain ⟨s₁, hinside, hlead⟩ :=
      (t.tracks ih.1 ih.2).asked (Evaluator.within k) (Evaluator.within_heeds R k) t' s'' ha
    exact R.lead hinside hlead

/-- A part is led to by the part around it. -/
theorem lead (R : Regime) (hpart : Part n m s (t :: trail) k t' s')
    (hm : ∀ t s', (Evaluator.within n).Asks m s t s' → R.Good s' ∧ R.Does n s' t) :
    ∃ s₀ s₁, Part n m s trail (k + 1) t s₀ ∧ R.Inside k t s₀ s₁ ∧
      Lead R.Kept R.Sound t s₀ s₁ t' s' := by
  obtain ⟨s₀, houter, ha⟩ := hpart.of_cons
  obtain ⟨hgood, hdoes⟩ := houter.allowed R hm
  obtain ⟨s₁, hinside, hlead⟩ :=
    (t.tracks hgood hdoes).asked (Evaluator.within k) (Evaluator.within_heeds R k) t' s' ha
  exact ⟨s₀, s₁, houter, hinside, hlead⟩

/-- What is not lost as long as the regime is kept, when a call is entered and when an instance is made,
holds in all the parts of a run. -/
theorem carries (R : Regime) {P : State → Prop} (hpart : Part n m s trail k t s')
    (hm : ∀ t s', (Evaluator.within n).Asks m s t s' → R.Good s' ∧ R.Does n s' t)
    (hstart : ∀ t s', (Evaluator.within n).Asks m s t s' → P s')
    (hkept : ∀ s s', R.Kept s s' → P s → P s') (hentered : ∀ s, P s → P s.entered)
    (hinstance : ∀ s id, P s → P (s.withInstance id)) : P s' := by
  induction trail generalizing k t s' with
  | nil =>
    obtain ⟨-, ha⟩ := hpart.of_nil
    exact hstart _ _ ha
  | cons t₀ trail ih =>
    obtain ⟨s₀, s₁, houter, hinside, hlead⟩ := hpart.lead R hm
    have hs₀ : P s₀ := ih houter
    have hs₁ : P s₁ := by
      refine hkept _ _ hinside.kept ?_
      unfold Task.inside
      split
      · exact hentered s₀ hs₀
      · exact hs₀
    rcases hlead.enters with rfl | ⟨c, id, args, -, rfl⟩
    · exact hs₁
    · exact hinstance s₁ id hs₁

/-- What there is at the end of a part persists to the end of the run. -/
theorem persists (R : Regime) (hpart : Part n m s trail k t s')
    (hm : ∀ t s', (Evaluator.within n).Asks m s t s' → R.Good s' ∧ R.Does n s' t)
    (hend : ∀ t s', (Evaluator.within n).Asks m s t s' →
      (((Evaluator.within n).perform t).after s').Persists ((m (Evaluator.within n)).after s)) :
    (((Evaluator.within k).perform t).after s').Persists ((m (Evaluator.within n)).after s) := by
  induction hpart with
  | asked ha => exact hend _ _ ha
  | @inner trail k t s' t' s'' houter ha ih =>
    obtain ⟨hgood, hdoes⟩ := houter.allowed R hm
    refine State.Persists.trans ?_ ih
    exact (t.tracks hgood hdoes).persists (Evaluator.within k) (Evaluator.within_heeds R k) t' s'' ha

end Part

end ScriptLang
