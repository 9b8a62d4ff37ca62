/-
The tasks that a run consists of.

An evaluator performs a task by one step of its own and by asking for other tasks.  Which tasks these
are can be told from outside: a computation asks for a task in a state if its outcome depends on the
answer, that is, if another answer to this one question would make another outcome
(`Evaluator.Asks`).  The tasks that are asked for lead to further ones, and all of them together are
the parts of a run (`Part`).  A part knows the trail of tasks that lead to it, the innermost first.

For each way of putting computations together there is a lemma that says where its questions come
from.
-/
import ScriptLang.Proofs.Eval.HostCode
import ScriptLang.Proofs.Outcome

namespace ScriptLang

variable {α β : Type}

/-- Locates what ends a computation, if it has to be. -/
def Halt.locate (p : Position) : Halt → Halt
  | .fault f => .fault (f.locate p)
  | .exhausted => .exhausted

/-- The state at the start of a call. -/
def State.entered (s : State) : State := { s with depth := s.depth + 1 }

/-- The state with one more scope. -/
def State.opened (s : State) : State := { s with scopes := s.scopes.push {} }

/-- The state after the end of a call. -/
def State.left (s : State) : State := { s with depth := s.depth - 1 }

/-- The state after a turn of the host. -/
def State.turned (s : State) : State := { s with turns := s.turns + 1 }

/-- Whether a context is that of a call. -/
def Context.isCall : Context → Bool
  | .function _ _ => true
  | .method _ _ _ _ => true
  | _ => false

/-! ## Outcomes -/

namespace Exec

/-- The state that a computation leaves, with a result or without. -/
def after (m : Exec α) (s : State) : State :=
  match m.run s with
  | .ok _ s' => s'
  | .error _ s' => s'

variable {m : Exec α} {s s' : State} {a : α} {h : Halt} {p : Position}

lemma after_of_ok (hm : m.run s = .ok a s') : m.after s = s' := by
  simp [after, hm]

lemma after_of_error (hm : m.run s = .error h s') : m.after s = s' := by
  simp [after, hm]

lemma run_located_of_ok (hm : m.run s = .ok a s') : (located p m).run s = .ok a s' := by
  simp only [EStateM.run] at hm ⊢
  simp [located, hm]

lemma run_located_of_error (hm : m.run s = .error h s') :
    (located p m).run s = .error (h.locate p) s' := by
  simp only [EStateM.run] at hm ⊢
  cases h <;> simp [located, hm, Halt.locate]

lemma run_located_congr {m' : Exec α} {s₀ : State} (h : m.run s = m'.run s₀) :
    (located p m).run s = (located p m').run s₀ := by
  simp only [EStateM.run] at h ⊢
  simp only [located, h]

lemma after_congr {m' : Exec α} {s₀ : State} (h : m.run s = m'.run s₀) : m.after s = m'.after s₀ := by
  simp only [after, h]

lemma after_bind_of_ok {f : α → Exec β} (hm : m.run s = .ok a s') :
    (m >>= f).after s = (f a).after s' :=
  after_congr (run_bind_ok hm)

lemma after_bind_of_error {f : α → Exec β} (hm : m.run s = .error h s') : (m >>= f).after s = s' :=
  after_of_error (run_bind_error hm)

lemma after_located (p : Position) (x : Exec α) (s : State) : (located p x).after s = x.after s := by
  cases h : x.run s with
  | ok a s' => rw [after_of_ok h, after_of_ok (run_located_of_ok h)]
  | error e s' => rw [after_of_error h, after_of_error (run_located_of_error h)]

lemma run_located_eq_ok : (located p m).run s = .ok a s' ↔ m.run s = .ok a s' := by
  cases hm : m.run s with
  | ok b s'' => rw [run_located_of_ok hm]
  | error h s'' => simp [run_located_of_error hm]

/-- The parts of a computation can be located one by one. -/
lemma located_bind (p : Position) (m : Exec α) (k : α → Exec β) :
    located p (m >>= k) = located p m >>= fun a => located p (k a) := by
  funext s
  change (located p (m >>= k)).run s = (located p m >>= fun a => located p (k a)).run s
  cases hm : m.run s with
  | ok a s' =>
    rw [run_bind_ok (run_located_of_ok hm)]
    exact run_located_congr (run_bind_ok hm)
  | error halt s' =>
    rw [run_bind_error (run_located_of_error hm)]
    exact run_located_of_error (run_bind_error hm)

lemma run_attempt_of_ok (hm : m.run s = .ok a s') : (attempt m).run s = .ok (.ok a) s' := by
  simp only [EStateM.run] at hm ⊢
  simp [attempt, hm]

lemma run_attempt_of_fault {f : Fault} (hm : m.run s = .error (.fault f) s') :
    (attempt m).run s = .ok (.error f) s' := by
  simp only [EStateM.run] at hm ⊢
  simp [attempt, hm]

lemma run_attempt_of_exhausted (hm : m.run s = .error .exhausted s') :
    (attempt m).run s = .error .exhausted s' := by
  simp only [EStateM.run] at hm ⊢
  simp [attempt, hm]

lemma run_attempt_congr {m' : Exec α} {s₀ : State} (h : m.run s = m'.run s₀) :
    (attempt m).run s = (attempt m').run s₀ := by
  simp only [EStateM.run] at h ⊢
  simp only [attempt, h]

lemma after_attempt (m : Exec α) (s : State) : (attempt m).after s = m.after s := by
  cases hm : m.run s with
  | ok a s' => rw [after_of_ok hm, after_of_ok (run_attempt_of_ok hm)]
  | error h s' =>
    rw [after_of_error hm]
    cases h with
    | fault f => exact after_of_ok (run_attempt_of_fault hm)
    | exhausted => exact after_of_error (run_attempt_of_exhausted hm)

/-- To hand on a fault is not to handle it. -/
lemma run_attempt_bind {k : Except Fault α → Exec β} (hk : ∀ f, k (.error f) = throw (.fault f)) :
    (attempt m >>= k).run s = (m >>= fun a => k (.ok a)).run s := by
  cases hm : m.run s with
  | ok a s' => rw [run_bind_ok (run_attempt_of_ok hm), run_bind_ok hm]
  | error h s' =>
    rw [run_bind_error hm]
    cases h with
    | fault f =>
      rw [run_bind_ok (run_attempt_of_fault hm), hk f]
      rfl
    | exhausted => exact run_bind_error (run_attempt_of_exhausted hm)

/-- Whether a computation gives a result, in a state, that have a property. -/
def gives (m : Exec α) (s : State) (P : α → State → Prop) [∀ a s', Decidable (P a s')] : Bool :=
  match m.run s with
  | .ok a s' => P a s'
  | .error _ _ => false

lemma exists_run_of_gives {P : α → State → Prop} [∀ a s', Decidable (P a s')]
    (h : m.gives s P = true) : ∃ a s', m.run s = .ok a s' ∧ P a s' := by
  unfold gives at h
  split at h
  next a s' hrun => exact ⟨a, s', hrun, of_decide_eq_true h⟩
  next => cases h

/-- Making a context makes a scope. -/
lemma run_newContext (frame : Frame) (s : State) :
    ∃ c, (newContext frame).run s = .ok c s.opened ∧ c.isCall = true ∧ c.scope = ⟨s.scopes.size⟩ := by
  cases frame <;> exact ⟨_, rfl, rfl, rfl⟩

lemma run_asCall_of_ok (hd : s.depth < s.config.maxCallDepth) (hm : m.run s.entered = .ok a s') :
    (asCall m).run s = .ok a s'.left := by
  simp only [EStateM.run, State.entered] at hm ⊢
  simp [asCall, Nat.not_le.mpr hd, hm, State.left]

lemma run_asCall_of_error (hd : s.depth < s.config.maxCallDepth)
    (hm : m.run s.entered = .error h s') : (asCall m).run s = .error h s'.left := by
  simp only [EStateM.run, State.entered] at hm ⊢
  simp [asCall, Nat.not_le.mpr hd, hm, State.left]

lemma run_asCall_of_le (hd : s.config.maxCallDepth ≤ s.depth) :
    (asCall m).run s = .error (.fault { cause := .stackOverflow s.config.maxCallDepth }) s := by
  simp [EStateM.run, asCall, hd]

end Exec

/-! ## Questions -/

namespace Evaluator

/-- Two evaluators that give the same answers, apart from the answer to `t` in the state `s`. -/
structure AgreesOff (one other : Evaluator) (t : Task) (s : State) : Prop where
  bound : other.bound = one.bound
  perform : ∀ t' s', ¬(t' = t ∧ s' = s) → (other.perform t').run s' = (one.perform t').run s'

/-- Run from the state `s`, the computation `m` asks `self` for `t` in the state `s'`: its outcome
depends on the answer. -/
def Asks (self : Evaluator) (m : Evaluator → Exec α) (s : State) (t : Task) (s' : State) : Prop :=
  ∃ other, self.AgreesOff other t s' ∧ (m other).run s ≠ (m self).run s

/-- The evaluator that reaches the bound on its steps when it is asked for `t` in the state `s`, leaves
the state `s'` then, and otherwise does the same as `self`. -/
noncomputable def stoppingAt (self : Evaluator) (t : Task) (s s' : State) : Evaluator where
  bound := self.bound
  perform := fun t' s'' =>
    open Classical in
    if t' = t ∧ s'' = s then .error .exhausted s' else (self.perform t').run s''

variable {self other : Evaluator} {t t' : Task} {s s' s'' : State}

lemma run_stoppingAt_self (self : Evaluator) (t : Task) (s s' : State) :
    ((self.stoppingAt t s s').perform t).run s = .error .exhausted s' := by
  simp [stoppingAt, EStateM.run]

lemma agreesOff_stoppingAt (self : Evaluator) (t : Task) (s s' : State) :
    self.AgreesOff (self.stoppingAt t s s') t s where
  bound := rfl
  perform := fun t' s'' hne => by simp [stoppingAt, EStateM.run, hne]

/-- A computation that could be made to end in two ways by the answer to a question asks for it. -/
lemma asks_of_stops {m : Evaluator → Exec α} {s₁ s₂ : State}
    (h₁ : (m (self.stoppingAt t s' s')).run s = .error .exhausted s₁)
    (h₂ : (m (self.stoppingAt t s' s'.turned)).run s = .error .exhausted s₂)
    (hne : s₁.turns ≠ s₂.turns) : self.Asks m s t s' := by
  by_cases hx : (m self).run s = .error .exhausted s₁
  · refine ⟨_, agreesOff_stoppingAt self t s' s'.turned, ?_⟩
    rw [h₂, hx]
    rintro ⟨⟩
    exact hne rfl
  · refine ⟨_, agreesOff_stoppingAt self t s' s', ?_⟩
    rw [h₁]
    exact fun he => hx he.symm

lemma AgreesOff.symm (h : self.AgreesOff other t s) : other.AgreesOff self t s where
  bound := h.bound.symm
  perform := fun t' s' hne => (h.perform t' s' hne).symm

lemma AgreesOff.trans {third : Evaluator} (h : self.AgreesOff other t s)
    (h' : other.AgreesOff third t s) : self.AgreesOff third t s where
  bound := h'.bound.trans h.bound
  perform := fun t' s' hne => (h'.perform t' s' hne).trans (h.perform t' s' hne)

/-- Whether a task is asked for does not depend on the answer to it. -/
lemma Asks.of_agreesOff {m : Evaluator → Exec α} (h : self.Asks m s t s')
    (ho : self.AgreesOff other t s') : other.Asks m s t s' := by
  obtain ⟨third, hthird, hne⟩ := h
  by_cases hm : (m other).run s = (m self).run s
  · exact ⟨third, ho.symm.trans hthird, by rwa [hm]⟩
  · exact ⟨self, ho.symm, fun he => hm he.symm⟩

lemma not_asks_const (m : Exec α) : ¬self.Asks (fun _ => m) s t s' := by
  rintro ⟨_, -, hne⟩
  exact hne rfl

lemma asks_perform (h : self.Asks (fun ev => ev.perform t) s t' s') : t' = t ∧ s' = s := by
  obtain ⟨other, hoff, hne⟩ := h
  by_contra hdiff
  refine hne (hoff.perform t s ?_)
  rintro ⟨rfl, rfl⟩
  exact hdiff ⟨rfl, rfl⟩

lemma asks_perform_self : self.Asks (fun ev => ev.perform t) s t s :=
  asks_of_stops (run_stoppingAt_self self t s s) (run_stoppingAt_self self t s s.turned)
    (Nat.succ_ne_self _).symm

/-- A question of two computations one after the other is one of the first, or one of the second
after the first has ended with a result. -/
lemma asks_bind {m : Evaluator → Exec α} {k : α → Evaluator → Exec β}
    (h : self.Asks (fun ev => m ev >>= fun a => k a ev) s t s') :
    self.Asks m s t s' ∨ ∃ a s₁, (m self).run s = .ok a s₁ ∧ self.Asks (k a) s₁ t s' := by
  obtain ⟨other, hoff, hne⟩ := h
  by_cases hm : (m other).run s = (m self).run s
  · right
    cases hms : (m self).run s with
    | ok a s₁ =>
      refine ⟨a, s₁, rfl, other, hoff, fun hk => hne ?_⟩
      simp only [run_bind_ok (hm.trans hms), run_bind_ok hms, hk]
    | error e s₁ =>
      refine absurd ?_ hne
      simp only [run_bind_error (hm.trans hms), run_bind_error hms]
  · exact .inl ⟨other, hoff, hm⟩

lemma asks_bind_right {m : Evaluator → Exec α} {k : α → Evaluator → Exec β} {a : α}
    (hm : (m self).run s = .ok a s'') (hnot : ¬self.Asks m s t s')
    (h : self.Asks (k a) s'' t s') :
    self.Asks (fun ev => m ev >>= fun a => k a ev) s t s' := by
  obtain ⟨other, hoff, hne⟩ := h
  have hother : (m other).run s = .ok a s'' := by
    by_contra hdiff
    exact hnot ⟨other, hoff, by rwa [hm]⟩
  refine ⟨other, hoff, ?_⟩
  simpa only [run_bind_ok hother, run_bind_ok hm] using hne

lemma asks_located {m : Evaluator → Exec α} {p : Position}
    (h : self.Asks (fun ev => Exec.located p (m ev)) s t s') : self.Asks m s t s' := by
  obtain ⟨other, hoff, hne⟩ := h
  refine ⟨other, hoff, fun hm => hne ?_⟩
  simp only [EStateM.run] at hm ⊢
  simp only [Exec.located, hm]

lemma asks_attempt {m : Evaluator → Exec α}
    (h : self.Asks (fun ev => Exec.attempt (m ev)) s t s') : self.Asks m s t s' := by
  obtain ⟨other, hoff, hne⟩ := h
  exact ⟨other, hoff, fun hm => hne (Exec.run_attempt_congr hm)⟩

/-- What is asked for in a call is asked for one level deeper. -/
lemma asks_asCall {m : Evaluator → Exec α}
    (h : self.Asks (fun ev => Exec.asCall (m ev)) s t s') :
    s.depth < s.config.maxCallDepth ∧ self.Asks m s.entered t s' := by
  obtain ⟨other, hoff, hne⟩ := h
  by_cases hd : s.depth < s.config.maxCallDepth
  · refine ⟨hd, other, hoff, fun hm => hne ?_⟩
    simp only [EStateM.run, State.entered] at hm ⊢
    simp only [Exec.asCall, hm]
  · exact absurd (by simp only [Exec.run_asCall_of_le (Nat.not_lt.mp hd)]) hne

/-- The bound of an evaluator is no question. -/
lemma asks_bound_iff {m : Nat → Evaluator → Exec α} :
    self.Asks (fun ev => m ev.bound ev) s t s' ↔ self.Asks (m self.bound) s t s' := by
  constructor
  · rintro ⟨other, hoff, hne⟩
    exact ⟨other, hoff, by simpa only [hoff.bound] using hne⟩
  · rintro ⟨other, hoff, hne⟩
    exact ⟨other, hoff, by simpa only [hoff.bound] using hne⟩

/-- Computations that do the same ask for the same. -/
lemma Asks.congr_from {m m' : Evaluator → Exec α} {s₀ : State} (h : self.Asks m s t s')
    (heq : ∀ ev, (m ev).run s = (m' ev).run s₀) : self.Asks m' s₀ t s' := by
  obtain ⟨other, hoff, hne⟩ := h
  exact ⟨other, hoff, by rwa [← heq, ← heq]⟩

end Evaluator

/-! ## Parts of a run -/

/-- The parts of the run of `m` from the state `s` by the evaluator that nests at most `n` steps:
`t` is performed in the state `s'` by the evaluator that nests at most `k` steps.  The tasks of the
trail lead to it, the innermost first. -/
inductive Part (n : Nat) (m : Evaluator → Exec α) (s : State) :
    (trail : List Task) → (k : Nat) → Task → State → Prop
  | asked {t s'} : (Evaluator.within n).Asks m s t s' → Part n m s [] n t s'
  | inner {trail k t s' t' s''} : Part n m s trail (k + 1) t s' →
      (Evaluator.within k).Asks (fun ev => ev.step t) s' t' s'' → Part n m s (t :: trail) k t' s''

namespace Part

variable {n k : Nat} {m : Evaluator → Exec α} {s s' : State} {trail : List Task} {t t' : Task}

lemma of_nil (h : Part n m s [] k t s') : k = n ∧ (Evaluator.within n).Asks m s t s' := by
  cases h with
  | asked ha => exact ⟨rfl, ha⟩

lemma of_cons (h : Part n m s (t :: trail) k t' s') :
    ∃ s₀, Part n m s trail (k + 1) t s₀ ∧
      (Evaluator.within k).Asks (fun ev => ev.step t) s₀ t' s' := by
  cases h with
  | inner hpart ha => exact ⟨_, hpart, ha⟩

/-- The parts of a task that is itself part of a run are parts of the run. -/
lemma nest {trail' : List Task} {k' : Nat} {s'' : State} (hpart : Part n m s trail k t s')
    (h : Part k (fun ev => ev.perform t) s' trail' k' t' s'') :
    Part n m s (trail' ++ trail) k' t' s'' := by
  induction h with
  | asked ha =>
    obtain ⟨rfl, rfl⟩ := Evaluator.asks_perform ha
    exact hpart
  | inner _ ha ih => exact ih.inner ha

end Part

end ScriptLang
