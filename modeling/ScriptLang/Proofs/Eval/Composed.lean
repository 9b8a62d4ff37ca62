/-
Computations that are put together from effects and questions.

A step of the evaluator is put together from effects on the state, from questions to an evaluator, and
from failures, one after the other; on the way it may locate a fault, or handle it if it is code of the
host.  `Composed` says so of a computation and keeps account of what it does: the tasks for which it asks,
the places at which it locates faults and the causes that it handles are those of a licence, and its
effects stay inside a realm.

What follows for every such computation is proved here, once:

* it keeps its realm, if the evaluator does (`Composed.left`);
* it asks for what its licence and its realm allow, in a state that keeps the realm, and if the answer
  is a failure that it does not handle, then it fails in the same way (`Composed.asked`);
* a failure that comes from no question is raw, or that of a function of the host
  (`Composed.origin`).
-/
import ScriptLang.Proofs.Eval.Effect

namespace ScriptLang

variable {α β : Type}

/-! ## Failures and places -/

/-- Locating changes nothing but the place. -/
lemma Fault.cause_locate (f : Fault) (p : Position) : (f.locate p).cause = f.cause := by
  unfold locate
  split <;> rfl

/-- A failure to which no place is given any more: it has one, or it never gets one. -/
def Halt.Settled : Halt → Prop
  | .fault f => f.cause = .cancelled ∨ f.place.isSome
  | .exhausted => True

namespace Halt

variable {h : Halt} {p : Position}

lemma settled_exhausted : exhausted.Settled := trivial

lemma settled_cancelled : (fault ⟨.cancelled, none⟩).Settled := .inl rfl

lemma locate_of_settled (hs : h.Settled) : h.locate p = h := by
  cases h with
  | exhausted => rfl
  | fault f =>
    obtain ⟨cause, place⟩ := f
    simp only [locate, fault.injEq]
    rcases hs with hc | hp
    · simp only at hc
      subst hc
      rfl
    · obtain ⟨q, rfl⟩ := Option.isSome_iff_exists.mp hp
      unfold Fault.locate
      split <;> first | rfl | simp_all

lemma settled_locate (h : Halt) (p : Position) : (h.locate p).Settled := by
  cases h with
  | exhausted => trivial
  | fault f =>
    simp only [locate, Settled, Fault.locate]
    split
    · exact .inl rfl
    · exact .inr rfl
    · exact .inr rfl

/-- The cause of a failure, if there is one. -/
def cause? : Halt → Option Cause
  | .fault f => some f.cause
  | .exhausted => none

lemma cause_locate (h : Halt) (p : Position) : (h.locate p).cause? = h.cause? := by
  cases h with
  | exhausted => rfl
  | fault f => exact congrArg some (f.cause_locate p)

end Halt

lemma Fault.locate_bare {cause : Cause} (h : cause ≠ .cancelled) (p : Position) :
    Fault.locate ⟨cause, none⟩ p = ⟨cause, some p⟩ := by
  cases cause <;> first | rfl | exact absurd rfl h

/-! ## Licences -/

/-- What a computation may do besides having effects. -/
structure Licence where
  /-- The tasks for which it may ask. -/
  tasks : Task → Prop
  /-- The places at which it may locate a fault. -/
  places : Position → Prop
  /-- The faults with which a function of the host may fail in it. -/
  faults : Fault → Prop
  /-- The causes that a function of the host may handle in it. -/
  handles : Cause → Prop

namespace Licence

variable {L : Licence} {e e' : Halt} {p : Position}

/-- What becomes of a failure on its way through a computation. -/
def Passes (L : Licence) (e e' : Halt) : Prop := e' = e ∨ ∃ p, L.places p ∧ e' = e.locate p

/-- The failures that a computation can raise without asking. -/
inductive Raises (L : Licence) : Halt → Prop
  | raw {e : Halt} : e.Raw → Raises L e
  | host {f : Fault} : L.faults f → Raises L (.fault f)

/-- The licence after a fault has come up: to fail with it is to hand it on. -/
def holding (L : Licence) (f : Fault) : Licence := { L with faults := fun f' => L.faults f' ∨ f' = f }

/-- The failure is handled by no code of the host. -/
def Misses (L : Licence) (e : Halt) : Prop := ∀ cause ∈ e.cause?, ¬L.handles cause

lemma Passes.refl (L : Licence) (e : Halt) : L.Passes e e := .inl rfl

lemma Passes.locate (hp : L.places p) (h : L.Passes e e') : L.Passes e (e'.locate p) := by
  rcases h with rfl | ⟨q, hq, rfl⟩
  · exact .inr ⟨p, hp, rfl⟩
  · rw [Halt.locate_of_settled (Halt.settled_locate _ _)]
    exact .inr ⟨q, hq, rfl⟩

lemma Passes.trans {e'' : Halt} (h : L.Passes e e') (h' : L.Passes e' e'') : L.Passes e e'' := by
  rcases h' with rfl | ⟨p, hp, rfl⟩
  · exact h
  · exact h.locate hp

lemma Passes.cause (h : L.Passes e e') : e'.cause? = e.cause? := by
  rcases h with rfl | ⟨p, -, rfl⟩
  · rfl
  · exact e.cause_locate p

/-- A failure that is not handled stays so on its way. -/
lemma Passes.misses (h : L.Passes e e') (he : L.Misses e) : L.Misses e' := fun cause hcause =>
  he cause (h.cause ▸ hcause)

/-- A settled failure passes unchanged. -/
lemma Passes.eq_of_settled (h : L.Passes e e') (hs : e.Settled) : e' = e := by
  rcases h with rfl | ⟨p, -, rfl⟩
  · rfl
  · exact Halt.locate_of_settled hs

end Licence

/-- The tasks that may be asked for in a realm. -/
def Realm.Allows (W : Realm) : Task → Prop
  | .sequence c _ => W.floor ≤ c.scope.index
  | .host f _ => W.host f
  | _ => True

/-- The realm without bounds allows everything. -/
lemma Realm.allows_whole (t : Task) : whole.Allows t := by
  cases t with
  | sequence => exact Nat.zero_le _
  | _ => trivial

/-- How a computation left the state: the realm is kept, and a result has the property `Q`. -/
def Realm.Left (W : Realm) (Q : α → Prop) (s : State) : EStateM.Result Halt State α → Prop
  | .ok a s' => W.Kept s s' ∧ Q a
  | .error _ s' => W.Kept s s'

/-- What is kept to the start of a computation is kept to its end. -/
lemma Realm.Kept.left_of_left {W : Realm} {Q : α → Prop} {s s' : State}
    {r : EStateM.Result Halt State α} (h : W.Kept s s') (hr : W.Left Q s' r) : W.Left Q s r := by
  cases r with
  | ok a s'' => exact ⟨h.trans hr.1, hr.2⟩
  | error e s'' => exact h.trans hr

/-- Every task that is allowed leaves the state inside the realm. -/
def Evaluator.Keeps (self : Evaluator) (W : Realm) : Prop :=
  ∀ t, W.Allows t → ∀ s, W.Admits s → W.Left (fun _ => True) s ((self.perform t).run s)

/-! ## Composed computations -/

/-- A computation that is put together from what the realm and the licence allow, and whose results
have the property `Q`. -/
inductive Composed (W : Realm) :
    Licence → {α : Type} → (Evaluator → Exec α) → (α → Prop) → Prop
  | pure {L : Licence} {α : Type} {Q : α → Prop} {a : α} (h : Q a) : Composed W L (fun _ => pure a) Q
  | get {L : Licence} {Q : State → Prop} (h : ∀ s, W.Admits s → Q s) : Composed W L (fun _ => get) Q
  | fail {L : Licence} {α : Type} {Q : α → Prop} {cause : Cause} (h : cause.Ordinary) :
      Composed W L (fun _ => Exec.fail cause) Q
  | exhausted {L : Licence} {α : Type} {Q : α → Prop} : Composed W L (fun _ => throw .exhausted) Q
  | hostFault {L : Licence} {α : Type} {Q : α → Prop} {f : Fault} (h : L.faults f) :
      Composed W L (fun _ => throw (.fault f)) Q
  | effect {L : Licence} {α : Type} {R Q : α → Prop} {m : Exec α} (h : Effect W m R)
      (hQ : ∀ a, R a → Q a) : Composed W L (fun _ => m) Q
  | ask {L : Licence} {t : Task} {Q : t.Answer → Prop} (hL : L.tasks t) (hW : W.Allows t)
      (hQ : ∀ a, Q a) : Composed W L (fun ev => ev.perform t) Q
  | bind {L : Licence} {α β : Type} {R : α → Prop} {Q : β → Prop} {m : Evaluator → Exec α}
      {k : α → Evaluator → Exec β} (hm : Composed W L m R)
      (hk : ∀ a, R a → Composed W L (k a) Q) :
      Composed W L (fun ev => m ev >>= fun a => k a ev) Q
  | located {L : Licence} {α : Type} {Q : α → Prop} {p : Position} {m : Evaluator → Exec α}
      (h : L.places p) (hm : Composed W L m Q) : Composed W L (fun ev => Exec.located p (m ev)) Q
  | bounded {L : Licence} {α : Type} {Q : α → Prop} {m : Nat → Evaluator → Exec α}
      (hm : ∀ b, Composed W L (m b) Q) : Composed W L (fun ev => m ev.bound ev) Q
  /-- A fault is a result like others, which is handed on unless its cause is handled. -/
  | attempt {L : Licence} {α β : Type} {R : α → Prop} {Q : β → Prop} {m : Evaluator → Exec α}
      {k : Except Fault α → Evaluator → Exec β} (hm : Composed W L m R)
      (hok : ∀ a, R a → Composed W L (k (.ok a)) Q)
      (herror : ∀ f, Composed W (L.holding f) (k (.error f)) Q)
      (hhandles : ∀ f, L.handles f.cause ∨ k (.error f) = fun _ => throw (.fault f)) :
      Composed W L (fun ev => Exec.attempt (m ev) >>= fun x => k x ev) Q

namespace Composed

variable {W : Realm} {L : Licence} {m : Evaluator → Exec α} {Q : α → Prop} {self : Evaluator}
  {s s' : State} {t : Task} {e : Halt}

/-- A composed computation keeps its realm, if the evaluator does. -/
theorem left (hm : Composed W L m Q) (hself : self.Keeps W) (hs : W.Admits s) :
    W.Left Q s ((m self).run s) := by
  induction hm generalizing s with
  | pure h => exact ⟨.refl hs, h⟩
  | get h => exact ⟨.refl hs, h s hs⟩
  | fail | exhausted | hostFault => exact .refl hs
  | @effect _ _ _ _ m h hQ =>
    have hheld := h.held hs
    cases hr : m.run s with
    | ok a s' =>
      rw [hr] at hheld
      exact ⟨hheld.1, hQ a hheld.2⟩
    | error e s' =>
      rw [hr] at hheld
      exact hheld.1
  | @ask _ t _ _ hW hQ =>
    have hleft := hself t hW s hs
    cases hr : (self.perform t).run s with
    | ok a s' =>
      rw [hr] at hleft
      exact ⟨hleft.1, hQ a⟩
    | error e s' =>
      rw [hr] at hleft
      exact hleft
  | @bind _ _ _ _ _ m k _ _ ihm ihk =>
    have hfirst := ihm hs
    cases hr : (m self).run s with
    | error e s' =>
      rw [hr] at hfirst
      simp only [run_bind_error hr]
      exact hfirst
    | ok a s' =>
      rw [hr] at hfirst
      simp only [run_bind_ok hr]
      exact hfirst.1.left_of_left (ihk a hfirst.2 hfirst.1.admits)
  | @located _ _ _ p m _ _ ih =>
    have hleft := ih hs
    cases hr : (m self).run s with
    | ok a s' =>
      rw [hr] at hleft
      simp only [Exec.run_located_of_ok hr]
      exact hleft
    | error e s' =>
      rw [hr] at hleft
      simp only [Exec.run_located_of_error hr]
      exact hleft
  | bounded _ ih => exact ih self.bound hs
  | @attempt _ _ _ _ _ m k _ _ _ _ ihm ihok iherror =>
    have hfirst := ihm hs
    cases hr : (m self).run s with
    | ok a s' =>
      rw [hr] at hfirst
      simp only [run_bind_ok (Exec.run_attempt_of_ok hr)]
      exact hfirst.1.left_of_left (ihok a hfirst.2 hfirst.1.admits)
    | error e s' =>
      rw [hr] at hfirst
      cases e with
      | exhausted =>
        simp only [run_bind_error (Exec.run_attempt_of_exhausted hr)]
        exact hfirst
      | fault f =>
        simp only [run_bind_ok (Exec.run_attempt_of_fault hr)]
        exact Realm.Kept.left_of_left hfirst (iherror f (Realm.Kept.admits hfirst))

/-- What is known of a question: it is allowed, it is asked in a state that keeps the realm, and if the
answer is a failure that is not handled, then the computation fails with what becomes of it. -/
structure Asked (W : Realm) (L : Licence) (ev : Evaluator) (m : Evaluator → Exec α) (s : State)
    (t : Task) (s' : State) : Prop where
  licensed : L.tasks t
  allowed : W.Allows t
  kept : W.Kept s s'
  fails : ∀ e s₁, (ev.perform t).run s' = .error e s₁ → L.Misses e →
    ∃ e' s₂, (m ev).run s = .error e' s₂ ∧ L.Passes e e'
  /-- The bound on the steps is nothing that is handled. -/
  stops : ∀ s₁, (ev.perform t).run s' = .error .exhausted s₁ → (m ev).run s = .error .exhausted s₁

/-- A question is also one of a computation around it that fails in the same way. -/
lemma Asked.of_error {ev : Evaluator} {m' : Evaluator → Exec β} {s₀ : State} (h : Asked W L ev m s t s')
    (hkept : W.Kept s s' → W.Kept s₀ s')
    (hrun : ∀ {e s₁}, (m ev).run s = .error e s₁ → (m' ev).run s₀ = .error e s₁) :
    Asked W L ev m' s₀ t s' where
  licensed := h.licensed
  allowed := h.allowed
  kept := hkept h.kept
  fails := fun e s₁ hfail hmiss => by
    obtain ⟨e', s₂, hr, hpass⟩ := h.fails e s₁ hfail hmiss
    exact ⟨e', s₂, hrun hr, hpass⟩
  stops := fun s₁ hstop => hrun (h.stops s₁ hstop)

/-- A composed computation asks only for what it may ask for, and it fails if an answer fails. -/
theorem asked (hm : Composed W L m Q) (hself : self.Keeps W) (hs : W.Admits s)
    (ha : self.Asks m s t s') : Asked W L self m s t s' := by
  induction hm generalizing s with
  | pure | get | fail | exhausted | hostFault | effect =>
    exact absurd ha (Evaluator.not_asks_const _)
  | @ask L _ _ hL hW _ =>
    obtain ⟨rfl, rfl⟩ := Evaluator.asks_perform ha
    exact ⟨hL, hW, .refl hs, fun e s₁ hr _ => ⟨e, s₁, hr, .refl L e⟩, fun _ hr => hr⟩
  | @bind _ _ _ _ _ m k hm _ ihm ihk =>
    rcases Evaluator.asks_bind ha with ha | ⟨a, s₁, hr, ha⟩
    · exact (ihm hs ha).of_error id run_bind_error
    · have hleft := hm.left hself hs
      rw [hr] at hleft
      refine (ihk a hleft.2 hleft.1.admits ha).of_error hleft.1.trans fun hk => ?_
      exact (run_bind_ok hr).trans hk
  | @located _ _ _ p m hp _ ih =>
    have hasked := ih hs (Evaluator.asks_located ha)
    refine ⟨hasked.licensed, hasked.allowed, hasked.kept, fun e s₁ hfail hmiss => ?_,
      fun s₁ hstop => Exec.run_located_of_error (hasked.stops s₁ hstop)⟩
    obtain ⟨e', s₂, hr, hpass⟩ := hasked.fails e s₁ hfail hmiss
    exact ⟨e'.locate p, s₂, Exec.run_located_of_error hr, hpass.locate hp⟩
  | bounded _ ih => exact (ih self.bound hs (Evaluator.asks_bound_iff.mp ha)).of_error id id
  | @attempt L _ _ _ _ m k hm _ _ hhandles ihm ihok iherror =>
    rcases Evaluator.asks_bind ha with ha | ⟨x, s₁, hr, ha⟩
    · have hasked := ihm hs (Evaluator.asks_attempt ha)
      refine ⟨hasked.licensed, hasked.allowed, hasked.kept, fun e s₁ hfail hmiss => ?_, fun s₁ hstop =>
        run_bind_error (Exec.run_attempt_of_exhausted (hasked.stops s₁ hstop))⟩
      obtain ⟨e', s₂, hr, hpass⟩ := hasked.fails e s₁ hfail hmiss
      refine ⟨e', s₂, ?_, hpass⟩
      cases e' with
      | exhausted => exact run_bind_error (Exec.run_attempt_of_exhausted hr)
      | fault f =>
        -- The cause is not handled, so the fault is handed on.
        have hrelay := (hhandles f).resolve_left (hpass.misses hmiss f.cause rfl)
        rw [run_bind_ok (Exec.run_attempt_of_fault hr), hrelay]
        rfl
    · have hleft := hm.left hself hs
      have hsecond : W.Kept s s₁ ∧ Asked W L self (k x) s₁ t s' := by
        cases hm' : (m self).run s with
        | ok a s₂ =>
          rw [Exec.run_attempt_of_ok hm'] at hr
          cases hr
          rw [hm'] at hleft
          exact ⟨hleft.1, ihok a hleft.2 hleft.1.admits ha⟩
        | error e s₂ =>
          rw [hm'] at hleft
          cases e with
          | exhausted =>
            rw [Exec.run_attempt_of_exhausted hm'] at hr
            cases hr
          | fault f =>
            rw [Exec.run_attempt_of_fault hm'] at hr
            cases hr
            have hasked := iherror f (Realm.Kept.admits hleft) ha
            exact ⟨hleft, hasked.licensed, hasked.allowed, hasked.kept, hasked.fails, hasked.stops⟩
      exact hsecond.2.of_error hsecond.1.trans fun hk => (run_bind_ok hr).trans hk

/-! ## Where failures come from -/

/-- An evaluator that stops instead of answering one question keeps a realm as well. -/
lemma keeps_stoppingAt {s'' : State} (hself : self.Keeps W) (t : Task) (hs : W.Admits s' → W.Kept s' s'') :
    (self.stoppingAt t s' s'').Keeps W := by
  intro t' hW s₁ hs₁
  by_cases heq : t' = t ∧ s₁ = s'
  · obtain ⟨rfl, rfl⟩ := heq
    rw [Evaluator.run_stoppingAt_self]
    exact hs hs₁
  · rw [(Evaluator.agreesOff_stoppingAt self t s' s'').perform t' s₁ heq]
    exact hself t' hW s₁ hs₁

/-- If a question were not answered, the computation would stop where it is asked. -/
lemma stops {s'' : State} (hm : Composed W L m Q) (hself : self.Keeps W) (hs : W.Admits s)
    (ha : self.Asks m s t s') (hs' : W.Admits s' → W.Kept s' s'') :
    (m (self.stoppingAt t s' s'')).run s = .error .exhausted s'' := by
  have hask := ha.of_agreesOff (Evaluator.agreesOff_stoppingAt self t s' s'')
  exact (hm.asked (keeps_stoppingAt hself t hs') hs hask).stops s''
    (Evaluator.run_stoppingAt_self self t s' s'')

/-- A question of a computation is one of every computation that stops when it stops. -/
lemma asks_of_stops {m' : Evaluator → Exec β} {s₀ : State} (hm : Composed W L m Q)
    (hself : self.Keeps W) (hs : W.Admits s) (ha : self.Asks m s t s')
    (hstops : ∀ ev s₁, (m ev).run s = .error .exhausted s₁ →
      ∃ s₂, (m' ev).run s₀ = .error .exhausted s₂ ∧ s₂.turns = s₁.turns) :
    self.Asks m' s₀ t s' := by
  obtain ⟨s₁, h₁, hturns₁⟩ := hstops _ _ (hm.stops hself hs ha .refl)
  obtain ⟨s₂, h₂, hturns₂⟩ := hstops _ _
    (hm.stops hself hs ha fun hs' => ((Effect.takeTurn (W := W)).held hs').1)
  refine Evaluator.asks_of_stops h₁ h₂ ?_
  rw [hturns₁, hturns₂]
  exact (Nat.succ_ne_self _).symm

lemma asks_bind_left {k : α → Evaluator → Exec β} (hm : Composed W L m Q) (hself : self.Keeps W)
    (hs : W.Admits s) (ha : self.Asks m s t s') :
    self.Asks (fun ev => m ev >>= fun a => k a ev) s t s' :=
  hm.asks_of_stops hself hs ha fun _ s₁ hr => ⟨s₁, run_bind_error hr, rfl⟩

/-- What is asked for after a computation has ended is asked for by both together. -/
lemma asks_bind_after {k : α → Evaluator → Exec β} {a : α} {s₁ : State} (hm : Composed W L m Q)
    (hself : self.Keeps W) (hs : W.Admits s) (hr : (m self).run s = .ok a s₁)
    (ha : self.Asks (k a) s₁ t s') : self.Asks (fun ev => m ev >>= fun a => k a ev) s t s' := by
  by_cases hboth : self.Asks m s t s'
  · exact hm.asks_bind_left hself hs hboth
  · exact Evaluator.asks_bind_right hr hboth ha

lemma asks_located {p : Position} (hm : Composed W L m Q) (hself : self.Keeps W)
    (hs : W.Admits s) (ha : self.Asks m s t s') :
    self.Asks (fun ev => Exec.located p (m ev)) s t s' :=
  hm.asks_of_stops hself hs ha fun _ s₁ hr => ⟨s₁, Exec.run_located_of_error hr, rfl⟩

lemma asks_asCall (hm : Composed W L m Q) (hself : self.Keeps W) (hs : W.Admits s.entered)
    (hd : s.depth < s.config.maxCallDepth) (ha : self.Asks m s.entered t s') :
    self.Asks (fun ev => Exec.asCall (m ev)) s t s' :=
  hm.asks_of_stops hself hs ha fun _ s₁ hr => ⟨s₁.left, Exec.run_asCall_of_error hd hr, rfl⟩

/-- What is asked for before a fault is handled. -/
lemma asks_attempt_left {k : Except Fault α → Evaluator → Exec β} (hm : Composed W L m Q)
    (hself : self.Keeps W) (hs : W.Admits s) (ha : self.Asks m s t s') :
    self.Asks (fun ev => Exec.attempt (m ev) >>= fun x => k x ev) s t s' :=
  hm.asks_of_stops hself hs ha fun _ s₁ hr =>
    ⟨s₁, run_bind_error (Exec.run_attempt_of_exhausted hr), rfl⟩

/-- What is asked for after that. -/
lemma asks_attempt_after {k : Except Fault α → Evaluator → Exec β} {x : Except Fault α} {s₁ : State}
    (hm : Composed W L m Q) (hself : self.Keeps W) (hs : W.Admits s)
    (hr : (Exec.attempt (m self)).run s = .ok x s₁) (ha : self.Asks (k x) s₁ t s') :
    self.Asks (fun ev => Exec.attempt (m ev) >>= fun x => k x ev) s t s' := by
  by_cases hboth : self.Asks m s t s'
  · exact hm.asks_attempt_left hself hs hboth
  · exact Evaluator.asks_bind_right hr (fun h => hboth (Evaluator.asks_attempt h)) ha

/-- Where a failure comes from: it is raised without a question, or it is what became of the answer
to one. -/
inductive Origin (L : Licence) (ev : Evaluator) (m : Evaluator → Exec α) (s : State)
    (e : Halt) : Prop
  | raised {e₀} : L.Raises e₀ → L.Passes e₀ e → Origin L ev m s e
  | answer {t s' e₀ s₁} : ev.Asks m s t s' → (ev.perform t).run s' = .error e₀ s₁ →
      L.Passes e₀ e → Origin L ev m s e

/-- The origin of a failure is that of what becomes of it in a computation that asks the same. -/
lemma Origin.imp {ev : Evaluator} {m' : Evaluator → Exec β} {s₀ : State} {e' : Halt}
    (h : Origin L ev m s e) (hasks : ∀ {t s'}, ev.Asks m s t s' → ev.Asks m' s₀ t s')
    (hpass : ∀ {e₀}, L.Passes e₀ e → L.Passes e₀ e') : Origin L ev m' s₀ e' := by
  cases h with
  | raised hraise h => exact .raised hraise (hpass h)
  | answer ha hans h => exact .answer (hasks ha) hans (hpass h)

/-- Every failure of a composed computation has an origin. -/
theorem origin (hm : Composed W L m Q) (hself : self.Keeps W) (hs : W.Admits s)
    (hr : (m self).run s = .error e s') : Origin L self m s e := by
  induction hm generalizing s s' e with
  | pure | get => cases hr
  | fail hc =>
    cases hr
    exact .raised (.raw (.ordinary hc)) (.refl _ _)
  | exhausted =>
    cases hr
    exact .raised (.raw .exhausted) (.refl _ _)
  | hostFault hf =>
    cases hr
    exact .raised (.host hf) (.refl _ _)
  | effect he _ =>
    have hheld := he.held hs
    simp only at hr
    rw [hr] at hheld
    exact .raised (.raw hheld.2) (.refl _ _)
  | ask => exact .answer Evaluator.asks_perform_self hr (.refl _ _)
  | @bind _ _ _ _ _ m k hm hk ihm ihk =>
    cases hfirst : (m self).run s with
    | error e₁ s₁ =>
      simp only [run_bind_error hfirst] at hr
      cases hr
      exact (ihm hs hfirst).imp (hm.asks_bind_left hself hs) id
    | ok a s₁ =>
      have hleft := hm.left hself hs
      rw [hfirst] at hleft
      simp only [run_bind_ok hfirst] at hr
      exact (ihk a hleft.2 hleft.1.admits hr).imp (hm.asks_bind_after hself hs hfirst) id
  | @located _ _ _ p m hp hm ih =>
    cases hinner : (m self).run s with
    | ok a s₁ =>
      simp only [Exec.run_located_of_ok hinner] at hr
      cases hr
    | error e₁ s₁ =>
      simp only [Exec.run_located_of_error hinner] at hr
      cases hr
      exact (ih hs hinner).imp (hm.asks_located hself hs) (·.locate hp)
  | bounded hm ih => exact (ih self.bound hs hr).imp Evaluator.asks_bound_iff.mpr id
  | @attempt L _ _ _ _ m k hm _ _ _ ihm ihok iherror =>
    have hleft := hm.left hself hs
    cases hfirst : (m self).run s with
    | ok a s₁ =>
      rw [hfirst] at hleft
      have hrun := Exec.run_attempt_of_ok hfirst
      simp only [run_bind_ok hrun] at hr
      exact (ihok a hleft.2 hleft.1.admits hr).imp (hm.asks_attempt_after hself hs hrun) id
    | error e₁ s₁ =>
      rw [hfirst] at hleft
      cases e₁ with
      | exhausted =>
        simp only [run_bind_error (Exec.run_attempt_of_exhausted hfirst)] at hr
        cases hr
        exact (ihm hs hfirst).imp (hm.asks_attempt_left hself hs) id
      | fault f =>
        have hrun := Exec.run_attempt_of_fault hfirst
        simp only [run_bind_ok hrun] at hr
        cases iherror f (Realm.Kept.admits hleft) hr with
        | answer ha hans hpass => exact .answer (hm.asks_attempt_after hself hs hrun ha) hans hpass
        | raised hraise hpass =>
          cases hraise with
          | raw hraw => exact .raised (.raw hraw) hpass
          | host hf =>
            rcases hf with hf | rfl
            · exact .raised (.host hf) hpass
            · -- The fault that had come up is handed on: it has the origin that it had.
              exact (ihm hs hfirst).imp (hm.asks_attempt_left hself hs) (·.trans hpass)

end Composed

end ScriptLang
