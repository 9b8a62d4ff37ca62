/-
Regimes: what code keeps while it runs.

Bounds say in which states code may run, which tasks may be performed there, and what is kept between an
earlier and a later state.  They are a regime (`Regime`) if the changes that a step can make keep them
and the tasks to which a step can lead are allowed.  All that is known of the code is in these two
conditions, so a regime is made without looking at the evaluator.

`Obeys` says of a computation that it follows a regime.  It has four parts, which are carried through
all computations together: how the state is left, where the tasks come from that are asked for, that what
they leave persists, and that an evaluator that can do more leads to the same end.
-/
import ScriptLang.Proofs.Eval.Growth

namespace ScriptLang

variable {α β : Type}

/-! ## Outcomes and evaluators that can do more -/

/-- What is done with a result at the end leaves the state as it is. -/
lemma Exec.after_bind_pure {m : Exec α} {f : α → β} {s : State} :
    (m >>= fun a => Pure.pure (f a)).after s = m.after s := by
  cases h : m.run s with
  | ok a s' =>
    rw [after_bind_of_ok h, after_of_ok h]
    rfl
  | error e s' => rw [after_bind_of_error h, after_of_error h]

/-- The outcome `y` is `x`, unless the bound on the steps was reached there. -/
def Extended (x y : EStateM.Result Halt State α) : Prop := y = x ∨ ∃ s, x = .error .exhausted s

/-- The evaluator `other` does the same as `one` wherever `one` reaches no bound. -/
structure Evaluator.Extended (one other : Evaluator) : Prop where
  bound : one.bound ≤ other.bound
  perform : ∀ t s, ScriptLang.Extended ((one.perform t).run s) ((other.perform t).run s)

namespace Extended

variable {x x' : Exec α} {k k' : α → Exec β} {s : State} {p : Position}

lemma refl (x : EStateM.Result Halt State α) : Extended x x := .inl rfl

lemma bind (h : Extended (x.run s) (x'.run s))
    (hk : ∀ a s', x.run s = .ok a s' → Extended ((k a).run s') ((k' a).run s')) :
    Extended ((x >>= k).run s) ((x' >>= k').run s) := by
  rcases h with heq | ⟨s', hx⟩
  · cases hx : x.run s with
    | ok a s' =>
      rw [run_bind_ok hx, run_bind_ok (heq.trans hx)]
      exact hk a s' hx
    | error e s' =>
      rw [run_bind_error hx, run_bind_error (heq.trans hx)]
      exact refl _
  · exact .inr ⟨s', run_bind_error hx⟩

lemma located (h : Extended (x.run s) (x'.run s)) :
    Extended ((Exec.located p x).run s) ((Exec.located p x').run s) := by
  rcases h with heq | ⟨s', hx⟩
  · exact .inl (Exec.run_located_congr heq)
  · exact .inr ⟨s', Exec.run_located_of_error hx⟩

lemma attempt (h : Extended (x.run s) (x'.run s)) :
    Extended ((Exec.attempt x).run s) ((Exec.attempt x').run s) := by
  rcases h with heq | ⟨s', hx⟩
  · exact .inl (Exec.run_attempt_congr heq)
  · exact .inr ⟨s', Exec.run_attempt_of_exhausted hx⟩

lemma asCall (h : Extended (x.run s.entered) (x'.run s.entered)) :
    Extended ((Exec.asCall x).run s) ((Exec.asCall x').run s) := by
  by_cases hd : s.depth < s.config.maxCallDepth
  · rcases h with heq | ⟨s', hx⟩
    · cases hx : x.run s.entered with
      | ok a s' =>
        rw [Exec.run_asCall_of_ok hd hx, Exec.run_asCall_of_ok hd (heq.trans hx)]
        exact refl _
      | error e s' =>
        rw [Exec.run_asCall_of_error hd hx, Exec.run_asCall_of_error hd (heq.trans hx)]
        exact refl _
    · exact .inr ⟨s'.left, Exec.run_asCall_of_error hd hx⟩
  · have hle := Nat.not_lt.mp hd
    rw [Exec.run_asCall_of_le hle, Exec.run_asCall_of_le hle]
    exact refl _

end Extended

/-! ## Regimes -/

/-- Bounds for running code. -/
structure Bounds where
  /-- The states in which code may run. -/
  Good : State → Prop
  /-- What is kept as long as there is no failure. -/
  Kept : State → State → Prop
  /-- What is kept in any case. -/
  Near : State → State → Prop
  /-- The classes to which values may refer. -/
  Knows : Registry → ClassId → Prop
  /-- The tasks that an evaluator with a bound on its steps may be asked for. -/
  Does : Nat → State → Task → Prop
  /-- The states in which the bound on the steps may be reached. -/
  Stalls : State → Prop

namespace Bounds

/-- A value that a state may hold. -/
def Sound (B : Bounds) (v : Value) (s : State) : Prop :=
  ∀ id, v = .classRef id → B.Knows s.registry id

/-- How code may end. -/
def Ends (B : Bounds) (flow : Flow) (s : State) : Prop := ∀ v, flow = .returns v → B.Sound v s

/-- What the answer to a task has to be, if it is performed in the state `s₀`. -/
def Fulfils (B : Bounds) : (t : Task) → (s₀ : State) → t.Answer → State → Prop
  | .evaluate _ _, _ => B.Sound
  | .assign _ _ _, _ => fun _ _ => True
  | .execute _ _, _ => B.Ends
  | .sequence _ _, _ => B.Ends
  | .call _ _ _, _ => B.Sound
  | .invoke _ _ _, _ => B.Sound
  | .host _ _, _ => B.Sound
  | .setUp _ id i _, s₀ => fun _ s => (s₀.heap.instance? i).isSome → s.SetUpAs i id
  | .getMember _ _ _, _ => B.Sound

/-- How a computation has to leave the state. -/
def Left (B : Bounds) (Q : α → State → Prop) (s : State) : EStateM.Result Halt State α → Prop
  | .ok a s' => B.Kept s s' ∧ Q a s'
  | .error e s' => B.Near s s' ∧ (e = .exhausted → B.Stalls s')

/-- The state `s` is one that a step of the task, started in `s₀`, passes. -/
structure Inside (B : Bounds) (n : Nat) (t : Task) (s₀ s : State) : Prop where
  start : B.Good s₀
  does : B.Does (n + 1) s₀ t
  enters : t.isCall = true → t.enters s₀ = true ∧ s₀.depth < s₀.config.maxCallDepth
  kept : B.Kept (t.inside s₀) s

/-- Only references to classes are restricted. -/
lemma sound_of_ne {B : Bounds} {v : Value} {s : State} (h : ∀ id, v ≠ .classRef id) : B.Sound v s :=
  fun id hv => absurd hv (h id)

end Bounds

/-- Bounds that code cannot break.  Either the bound on the steps may be reached everywhere, or no
statement is started any more. -/
structure Regime extends Bounds where
  refl : ∀ {s}, Good s → Kept s s
  trans : ∀ {s s' s''}, Kept s s' → Kept s' s'' → Kept s s''
  good : ∀ {s s'}, Kept s s' → Good s'
  near : ∀ {s s'}, Kept s s' → Near s s'
  near_trans : ∀ {s s' s''}, Kept s s' → Near s' s'' → Near s s''
  grows : ∀ {s s'}, Near s s' → s.Grows s'
  opened : ∀ {s}, Good s → Kept s s.opened
  entered : ∀ {s}, Good s → Good s.entered
  left : ∀ {s s'}, Kept s.entered s' → Kept s s'.left
  near_left : ∀ {s s'}, Near s.entered s' → Near s s'.left
  knows : ∀ {s s' id}, Kept s s' → Knows s.registry id → Knows s'.registry id
  registered : ∀ {s id cls}, Good s → s.registry.get? id = some cls → Knows s.registry id
  stored : ∀ {s v}, Good s → s.Stores v → toBounds.Sound v s
  given : ∀ {n s t v}, Good s → Does n s t → v ∈ t.values → toBounds.Sound v s
  brought : ∀ {n s f call id}, Good s → Does n s (.host f call) → f.Brings id → Knows s.registry id
  operated : ∀ {s id}, Good s → s.services.operators.Brings id → Knows s.registry id
  /-- A failure that the host may handle leaves what is kept. -/
  handled : ∀ {n f call s₀ s s'}, toBounds.Inside n (.host f call) s₀ s → ¬f.Relays → Near s s' →
    Kept s s'
  change : ∀ {n t s₀ s s'}, toBounds.Inside n t s₀ s → Change Kept toBounds.Sound t s₀ s s' →
    Kept s s'
  lead : ∀ {n t s₀ s t' s'}, toBounds.Inside n t s₀ s → Lead Kept toBounds.Sound t s₀ s t' s' →
    Good s' ∧ Does n s' t'
  /-- An instance that is set up is kept. -/
  constructed : ∀ {s s' id}, Good s → Kept (s.withInstance id) s' →
    s'.SetUpAs s.nextInstance id → Kept s s'
  abandoned : ∀ {s s' id}, Good s → Near (s.withInstance id) s' → Near s s'
  exhausted : ∀ {s t}, Good s → Does 0 s t → Stalls s
  endless : ∀ {s caller side name id}, Good s →
    s.registry.search caller side name id = .endless → Stalls s
  stalls_left : ∀ {s}, Stalls s → Stalls s.left
  halting : (∀ s, Good s → Stalls s) ∨
    (∀ s, Good s → s.stopped = true) ∧ ∀ n s t, Does (n + 1) s t → t.isFlow = true → 0 < n

namespace Regime

variable {R : Regime} {n : Nat} {t t' : Task} {s₀ s s' : State}

lemma good_of_inside (R : Regime) (h : R.Inside n t s₀ s) : R.Good s := R.good h.kept

lemma kept_of_inside (R : Regime) (h : R.Inside n t s₀ s) : R.Kept s s := R.refl (R.good h.kept)

lemma grows_of_kept (R : Regime) (h : R.Kept s s') : s.Grows s' := R.grows (R.near h)

/-- What is kept in any case is kept by a computation, with a result or without. -/
lemma near_after {Q : α → State → Prop} {m : Exec α} (R : Regime) (h : R.Left Q s (m.run s)) :
    R.Near s (m.after s) := by
  cases hr : m.run s with
  | ok a s' =>
    rw [hr] at h
    rw [Exec.after_of_ok hr]
    exact R.near h.1
  | error e s' =>
    rw [hr] at h
    rw [Exec.after_of_error hr]
    exact h.1

/-- What there was before a computation persists. -/
lemma persists_of_left {Q : α → State → Prop} {m : Exec α} (R : Regime)
    (h : R.Left Q s (m.run s)) : s.Persists (m.after s) :=
  (R.grows (R.near_after h)).persists

lemma inside_of_kept (R : Regime) (h : R.Inside n t s₀ s) (hs : R.Kept s s') :
    R.Inside n t s₀ s' :=
  { h with kept := R.trans h.kept hs }

lemma sound_of_kept (R : Regime) {v : Value} (hs : R.Kept s s') (h : R.Sound v s) : R.Sound v s' :=
  fun id hv => R.knows hs (h id hv)

/-- A step makes its scopes after those that were there. -/
lemma scopes_of_inside (R : Regime) (h : R.Inside n t s₀ s) : s₀.scopes.size ≤ s.scopes.size := by
  have hgrows := (R.grows_of_kept h.kept).scopes
  rwa [Task.scopes_inside] at hgrows

/-- An instance that was there at the start stays. -/
lemma instance_of_inside (R : Regime) (h : R.Inside n t s₀ s) {i : InstanceId}
    (hi : (s₀.heap.instance? i).isSome) : (s.heap.instance? i).isSome := by
  obtain ⟨inst, hinst⟩ := Option.isSome_iff_exists.mp hi
  have hstart : (t.inside s₀).heap.instance? i = some inst := by rwa [Task.heap_inside]
  obtain ⟨inst', hinst', -⟩ := (R.grows_of_kept h.kept).object hstart
  simp [hinst']

/-- A class that was registered at the start stays. -/
lemma class_of_inside (R : Regime) (h : R.Inside n t s₀ s) {id : ClassId} {cls : Class}
    (hcls : s₀.registry.get? id = some cls) :
    ∃ cls', s.registry.get? id = some cls' ∧ cls.Revised cls' := by
  refine (R.grows_of_kept h.kept).cls ?_
  rwa [Task.registry_inside]

/-- The values that a task is given can be used all along. -/
lemma sound_of_mem_values (R : Regime) (h : R.Inside n t s₀ s) {v : Value} (hv : v ∈ t.values) :
    R.Sound v s := by
  intro id hid
  have hstart := R.given h.start h.does hv id hid
  refine R.knows h.kept ?_
  rwa [Task.registry_inside]

/-- Where code goes on to its next statement, the bound on the steps may be reached everywhere. -/
lemma stalls_of_running (R : Regime) (hs : R.Good s) (hrun : s.stopped = false) :
    ∀ s', R.Good s' → R.Stalls s' := by
  rcases R.halting with h | ⟨hstopped, -⟩
  · exact h
  · rw [hstopped s hs] at hrun
    cases hrun

/-- So it may where a statement cannot make its first step. -/
lemma stalls_of_flow (R : Regime) (h : R.Inside n t s₀ s) (ht : t.isFlow = true) (hn : n = 0) :
    ∀ s', R.Good s' → R.Stalls s' := by
  rcases R.halting with hall | ⟨-, hpos⟩
  · exact hall
  · have hlt := hpos n s₀ t h.does ht
    omega

end Regime

/-- The evaluator keeps the regime in all that it may be asked for. -/
structure Evaluator.Heeds (ev : Evaluator) (R : Regime) (n : Nat) : Prop where
  bound : ev.bound = n
  perform : ∀ t s, R.Good s → R.Does n s t → R.Left (R.Fulfils t s) s ((ev.perform t).run s)

/-! ## Computations that follow a regime -/

/-- What a part `m` of the step of a task does in the state `s`, and what its counterpart `m'` does with
an evaluator that can do more. -/
structure Tracks (R : Regime) (n : Nat) (t : Task) (s₀ : State) (m m' : Evaluator → Exec α)
    (s : State) (Q : α → State → Prop) : Prop where
  outcome : ∀ self : Evaluator, self.Heeds R n → R.Left Q s ((m self).run s)
  asked : ∀ self : Evaluator, self.Heeds R n → ∀ t' s', self.Asks m s t' s' →
    ∃ s₁, R.Inside n t s₀ s₁ ∧ Lead R.Kept R.Sound t s₀ s₁ t' s'
  persists : ∀ self : Evaluator, self.Heeds R n → ∀ t' s', self.Asks m s t' s' →
    ((self.perform t').after s').Persists ((m self).after s)
  extended : ∀ self other : Evaluator, self.Heeds R n → self.Extended other →
    Extended ((m self).run s) ((m' other).run s)

/-- Two counterparts agree if they follow the regime wherever the step passes. -/
def Agrees (R : Regime) (n : Nat) (t : Task) (s₀ : State) (m m' : Evaluator → Exec α) (s : State)
    (Q : α → State → Prop) : Prop :=
  R.Inside n t s₀ s → Tracks R n t s₀ m m' s Q

/-- A part of the step of a task follows the regime, and its results have the property `Q`. -/
abbrev Obeys (R : Regime) (n : Nat) (t : Task) (s₀ : State) (m : Evaluator → Exec α) (s : State)
    (Q : α → State → Prop) : Prop :=
  Agrees R n t s₀ m m s Q

namespace Agrees

variable {R : Regime} {n : Nat} {t t' : Task} {s₀ s s' : State} {m m' : Evaluator → Exec α}
  {Q P : α → State → Prop}

lemma congr {l l' : Evaluator → Exec α} (h : Agrees R n t s₀ l l' s Q)
    (heq : ∀ ev, (m ev).run s = (l ev).run s) (heq' : ∀ ev, (m' ev).run s = (l' ev).run s) :
    Agrees R n t s₀ m m' s Q := fun hs =>
  { outcome := fun self hself => by
      rw [heq]
      exact (h hs).outcome self hself
    asked := fun self hself t' s' ha => (h hs).asked self hself t' s' (ha.congr_from heq)
    persists := fun self hself t' s' ha => by
      rw [Exec.after_congr (heq self)]
      exact (h hs).persists self hself t' s' (ha.congr_from heq)
    extended := fun self other hself hother => by
      rw [heq, heq']
      exact (h hs).extended self other hself hother }

/-- What is known of the states that the step passes can be used. -/
lemma inside (h : R.Inside n t s₀ s → Agrees R n t s₀ m m' s Q) : Agrees R n t s₀ m m' s Q :=
  fun hs => h hs hs

/-- Two computations one after the other. -/
lemma bind {T : β → State → Prop} {k k' : α → Evaluator → Exec β}
    (hm : Agrees R n t s₀ m m' s P)
    (hk : ∀ a s', R.Kept s s' → P a s' → Agrees R n t s₀ (k a) (k' a) s' T) :
    Agrees R n t s₀ (fun ev => m ev >>= fun a => k a ev) (fun ev => m' ev >>= fun a => k' a ev) s T :=
  fun hs => by
    have hfirst := hm hs
    have hsecond : ∀ self : Evaluator, self.Heeds R n → ∀ a s', (m self).run s = .ok a s' →
        R.Kept s s' ∧ Tracks R n t s₀ (k a) (k' a) s' T := by
      intro self hself a s' hr
      have hleft := hfirst.outcome self hself
      rw [hr] at hleft
      exact ⟨hleft.1, hk a s' hleft.1 hleft.2 (R.inside_of_kept hs hleft.1)⟩
    refine ⟨fun self hself => ?_, fun self hself t' s' ha => ?_, fun self hself t' s' ha => ?_,
      fun self other hself hother => ?_⟩
    · cases hr : (m self).run s with
      | error e s' =>
        rw [run_bind_error hr]
        have hleft := hfirst.outcome self hself
        rw [hr] at hleft
        exact hleft
      | ok a s' =>
        rw [run_bind_ok hr]
        obtain ⟨hkept, hnext⟩ := hsecond self hself a s' hr
        have hleft := hnext.outcome self hself
        cases hr' : (k a self).run s' with
        | ok b s'' =>
          rw [hr'] at hleft
          exact ⟨R.trans hkept hleft.1, hleft.2⟩
        | error e s'' =>
          rw [hr'] at hleft
          exact ⟨R.near_trans hkept hleft.1, hleft.2⟩
    · rcases Evaluator.asks_bind ha with ha | ⟨a, s₁, hr, ha⟩
      · exact hfirst.asked self hself t' s' ha
      · exact (hsecond self hself a s₁ hr).2.asked self hself t' s' ha
    · rcases Evaluator.asks_bind ha with ha | ⟨a, s₁, hr, ha⟩
      · have hpersists := hfirst.persists self hself t' s' ha
        cases hr : (m self).run s with
        | error e s₁ =>
          rw [Exec.after_bind_of_error hr]
          rwa [Exec.after_of_error hr] at hpersists
        | ok a s₁ =>
          rw [Exec.after_bind_of_ok hr]
          rw [Exec.after_of_ok hr] at hpersists
          exact hpersists.trans (R.persists_of_left ((hsecond self hself a s₁ hr).2.outcome self hself))
      · rw [Exec.after_bind_of_ok hr]
        exact (hsecond self hself a s₁ hr).2.persists self hself t' s' ha
    · refine (hfirst.extended self other hself hother).bind fun a s' hr => ?_
      exact (hsecond self hself a s' hr).2.extended self other hself hother

lemma weaken (h : Agrees R n t s₀ m m' s P) (hPQ : ∀ a s', R.Kept s s' → P a s' → Q a s') :
    Agrees R n t s₀ m m' s Q := fun hs =>
  { h hs with
    outcome := fun self hself => by
      have hleft := (h hs).outcome self hself
      cases hr : (m self).run s with
      | ok a s' =>
        rw [hr] at hleft
        exact ⟨hleft.1, hPQ a s' hleft.1 hleft.2⟩
      | error e s' =>
        rw [hr] at hleft
        exact hleft }

lemma located {p : Position} (h : Agrees R n t s₀ m m' s Q) :
    Agrees R n t s₀ (fun ev => Exec.located p (m ev)) (fun ev => Exec.located p (m' ev)) s Q := fun hs =>
  { outcome := fun self hself => by
      have hleft := (h hs).outcome self hself
      cases hr : (m self).run s with
      | ok a s' =>
        rw [hr] at hleft
        simp only [Exec.run_located_of_ok hr]
        exact hleft
      | error e s' =>
        rw [hr] at hleft
        simp only [Exec.run_located_of_error hr]
        refine ⟨hleft.1, fun he => hleft.2 ?_⟩
        cases e with
        | exhausted => rfl
        | fault f => cases he
    asked := fun self hself t' s' ha => (h hs).asked self hself t' s' (Evaluator.asks_located ha)
    persists := fun self hself t' s' ha => by
      rw [Exec.after_located]
      exact (h hs).persists self hself t' s' (Evaluator.asks_located ha)
    extended := fun self other hself hother => ((h hs).extended self other hself hother).located }

/-- A fault is a result like others, where a failure leaves what is kept. -/
lemma attempt (h : Agrees R n t s₀ m m' s Q)
    (hnear : R.Inside n t s₀ s → ∀ s', R.Near s s' → R.Kept s s') :
    Agrees R n t s₀ (fun ev => Exec.attempt (m ev)) (fun ev => Exec.attempt (m' ev)) s
      fun outcome s' => ∀ a, outcome = .ok a → Q a s' := fun hs =>
  { outcome := fun self hself => by
      have hleft := (h hs).outcome self hself
      cases hr : (m self).run s with
      | ok a s' =>
        rw [hr] at hleft
        simp only [Exec.run_attempt_of_ok hr]
        refine ⟨hleft.1, fun b hb => ?_⟩
        cases hb
        exact hleft.2
      | error e s' =>
        rw [hr] at hleft
        cases e with
        | fault f =>
          simp only [Exec.run_attempt_of_fault hr]
          exact ⟨hnear hs s' hleft.1, nofun⟩
        | exhausted =>
          simp only [Exec.run_attempt_of_exhausted hr]
          exact hleft
    asked := fun self hself t' s' ha => (h hs).asked self hself t' s' (Evaluator.asks_attempt ha)
    persists := fun self hself t' s' ha => by
      rw [Exec.after_attempt]
      exact (h hs).persists self hself t' s' (Evaluator.asks_attempt ha)
    extended := fun self other hself hother => ((h hs).extended self other hself hother).attempt }

lemma ite {p : Prop} [Decidable p] {l l' : Evaluator → Exec α}
    (h : p → Agrees R n t s₀ m m' s Q) (h' : ¬p → Agrees R n t s₀ l l' s Q) :
    Agrees R n t s₀ (fun ev => if p then m ev else l ev) (fun ev => if p then m' ev else l' ev) s Q := by
  by_cases hp : p
  · simpa only [if_pos hp] using h hp
  · simpa only [if_neg hp] using h' hp

/-- A computation that asks for nothing. -/
lemma const {x : Exec α} (h : R.Inside n t s₀ s → R.Left Q s (x.run s)) :
    Obeys R n t s₀ (fun _ => x) s Q := fun hs =>
  { outcome := fun _ _ => h hs
    asked := fun _ _ _ _ ha => absurd ha (Evaluator.not_asks_const x)
    persists := fun _ _ _ _ ha => absurd ha (Evaluator.not_asks_const x)
    extended := fun _ _ _ _ => .refl _ }

lemma pure {a : α} (h : Q a s) : Obeys R n t s₀ (fun _ => Pure.pure a) s Q :=
  const fun hs => ⟨R.kept_of_inside hs, h⟩

lemma fail {cause : Cause} : Obeys R n t s₀ (fun _ => (Exec.fail cause : Exec α)) s Q :=
  const fun hs => ⟨R.near (R.kept_of_inside hs), nofun⟩

/-- The bound on the steps is reached, and the counterpart may do anything. -/
lemma exhausted (h : R.Inside n t s₀ s → R.Stalls s) :
    Agrees R n t s₀ (fun _ => throw .exhausted) m' s Q := fun hs =>
  { outcome := fun _ _ => ⟨R.near (R.kept_of_inside hs), fun _ => h hs⟩
    asked := fun _ _ _ _ ha => absurd ha (Evaluator.not_asks_const _)
    persists := fun _ _ _ _ ha => absurd ha (Evaluator.not_asks_const _)
    extended := fun _ _ _ _ => .inr ⟨s, rfl⟩ }

/-- An effect that has a result. -/
lemma effect {x : Exec α} {a : α} (hx : x.run s = .ok a s')
    (hs : R.Inside n t s₀ s → R.Kept s s') (hQ : Q a s') : Obeys R n t s₀ (fun _ => x) s Q :=
  const fun hin => by
    rw [hx]
    exact ⟨hs hin, hQ⟩

/-- An effect that fails and leaves the state as it is. -/
lemma fault {x : Exec α} {f : Fault} (hx : x.run s = .error (.fault f) s) :
    Obeys R n t s₀ (fun _ => x) s Q :=
  const fun hin => by
    rw [hx]
    exact ⟨R.near (R.kept_of_inside hin), nofun⟩

/-- An effect that fails ends what it is part of. -/
lemma failed {x : Exec β} {k k' : β → Evaluator → Exec α} {f : Fault}
    (hx : x.run s = .error (.fault f) s) :
    Agrees R n t s₀ (fun ev => x >>= fun b => k b ev) (fun ev => x >>= fun b => k' b ev) s Q := by
  have hthrow : Obeys R n t s₀ (fun _ => throw (.fault f)) s Q := fault rfl
  exact hthrow.congr (fun _ => run_bind_error hx) fun _ => run_bind_error hx

/-- What is read from the state is known in what follows. -/
lemma read {x : Exec β} {b : β} {k k' : β → Evaluator → Exec α} (hx : x.run s = .ok b s)
    (hk : Agrees R n t s₀ (k b) (k' b) s Q) :
    Agrees R n t s₀ (fun ev => x >>= fun b => k b ev) (fun ev => x >>= fun b => k' b ev) s Q :=
  hk.congr (fun _ => run_bind_ok hx) fun _ => run_bind_ok hx

/-- A question. -/
lemma ask (h : Lead R.Kept R.Sound t s₀ s t' s) :
    Obeys R n t s₀ (fun ev => ev.perform t') s (R.Fulfils t' s) := fun hs =>
  { outcome := fun self hself =>
      have hlead := R.lead hs h
      hself.perform t' s hlead.1 hlead.2
    asked := fun self _ t'' s'' ha => by
      obtain ⟨rfl, rfl⟩ := Evaluator.asks_perform ha
      exact ⟨s'', hs, h⟩
    persists := fun self _ t'' s'' ha => by
      obtain ⟨rfl, rfl⟩ := Evaluator.asks_perform ha
      exact .refl _
    extended := fun self other _ hother => hother.perform t' s }

/-- A computation with a bound. -/
lemma bounded {m : Nat → Evaluator → Exec α}
    (h : ∀ bound bound', bound = n → bound ≤ bound' →
      Agrees R n t s₀ (m bound) (m bound') s Q) :
    Obeys R n t s₀ (fun ev => m ev.bound ev) s Q := fun hs =>
  { outcome := fun self hself => by
      rw [hself.bound]
      exact (h n n rfl le_rfl hs).outcome self hself
    asked := fun self hself t' s' ha => by
      have ha' := Evaluator.asks_bound_iff.mp ha
      rw [hself.bound] at ha'
      exact (h n n rfl le_rfl hs).asked self hself t' s' ha'
    persists := fun self hself t' s' ha => by
      have ha' := Evaluator.asks_bound_iff.mp ha
      rw [hself.bound] at ha' ⊢
      exact (h n n rfl le_rfl hs).persists self hself t' s' ha'
    extended := fun self other hself hother => by
      have hle := hother.bound
      rw [hself.bound] at hle ⊢
      exact (h n other.bound rfl hle hs).extended self other hself hother }

/-- The same computation for all elements of a list.  What it leaves for one of them is not lost. -/
lemma forM {f : Evaluator → β → Exec Unit} {P : β → State → Prop} (l : List β)
    (hf : ∀ b ∈ l, ∀ s', R.Kept s s' → Obeys R n t s₀ (fun ev => f ev b) s' fun _ => P b)
    (hP : ∀ b s s', R.Kept s s' → P b s → P b s') :
    Obeys R n t s₀ (fun ev => l.forM (f ev)) s fun _ s' => ∀ b ∈ l, P b s' := by
  intro hs
  induction l generalizing s with
  | nil => exact pure (by simp) hs
  | cons b l ih =>
    have hfirst := hf b List.mem_cons_self s (R.kept_of_inside hs)
    refine bind hfirst (fun _ s' hkept hb => ?_) hs
    intro hs'
    refine weaken (fun hs' => ih ?_ hs') (fun _ s'' hkept' hl b' hb' => ?_) hs'
    · exact fun b' hb' s'' hkept' => hf b' (List.mem_cons_of_mem b hb') s'' (R.trans hkept hkept')
    · rcases List.mem_cons.mp hb' with rfl | hmem
      · exact hP b' s' s'' hkept' hb
      · exact hl b' hmem

/-- Making an instance.  It is kept once it is set up. -/
lemma construct {c : Context} {id : ClassId} {args : List Value}
    (hc : t.Constructs c) (hid : R.Sound (.classRef id) s) (hargs : ∀ v ∈ args, R.Sound v s) :
    Obeys R n t s₀ (fun ev => ev.construct c id args) s R.Sound := by
  have hrun : ∀ ev : Evaluator, (ev.construct c id args).run s =
      ((ev.perform (.setUp c id s.nextInstance args)) >>= fun _ =>
        (Pure.pure (.instanceRef s.nextInstance) : Exec Value)).run (s.withInstance id) :=
    fun _ => rfl
  intro hs
  have hlead : Lead R.Kept R.Sound t s₀ s (.setUp c id s.nextInstance args) (s.withInstance id) :=
    .constructed hc hid hargs
  obtain ⟨hgood, hdoes⟩ := R.lead hs hlead
  refine ⟨fun self hself => ?_, fun self hself t' s' ha => ?_, fun self hself t' s' ha => ?_,
    fun self other hself hother => ?_⟩
  · rw [hrun]
    have hleft := hself.perform _ _ hgood hdoes
    cases hr : (self.perform (.setUp c id s.nextInstance args)).run (s.withInstance id) with
    | ok a s' =>
      rw [hr] at hleft
      rw [run_bind_ok hr]
      have hset := hleft.2 s.isSome_nextInstance
      exact ⟨R.constructed (R.good_of_inside hs) hleft.1 hset, Bounds.sound_of_ne nofun⟩
    | error e s' =>
      rw [hr] at hleft
      rw [run_bind_error hr]
      exact ⟨R.abandoned (R.good_of_inside hs) hleft.1, hleft.2⟩
  · rcases Evaluator.asks_bind (ha.congr_from hrun) with ha | ⟨_, _, -, ha⟩
    · obtain ⟨rfl, rfl⟩ := Evaluator.asks_perform ha
      exact ⟨s, hs, hlead⟩
    · exact absurd ha (Evaluator.not_asks_const _)
  · rcases Evaluator.asks_bind (ha.congr_from hrun) with ha | ⟨_, _, -, ha⟩
    · obtain ⟨rfl, rfl⟩ := Evaluator.asks_perform ha
      rw [Exec.after_congr (hrun self), Exec.after_bind_pure]
      exact .refl _
    · exact absurd ha (Evaluator.not_asks_const _)
  · rw [hrun, hrun]
    exact (hother.perform _ _).bind fun _ _ _ => .refl _

end Agrees

end ScriptLang
