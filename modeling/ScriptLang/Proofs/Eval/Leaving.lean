/-
Breaks, continues and returns stay inside of what permits them.

Whether a statement may break, continue or return is read off its context, and whether this is taken up
is decided by the loops, switches and calls around it.  The two agree: a piece of a script ends with a
break, a continue or a return only if its context permits this, and every break and every continue is
caught by the innermost loop or switch, or the innermost loop, of the same call.
-/
import ScriptLang.Proofs.Eval.Enclosing

namespace ScriptLang

variable {α : Type} {n k : Nat} {s s' s₁ : State} {f : Flow} {p : Piece}

/-- Whether a statement in a context may end in a way. -/
def Context.permits (config : Config) (c : Context) : Flow → Bool
  | .breaks => c.canBreak
  | .continues => c.canContinue
  | .returns _ => c.canReturn config.topLevelReturn
  | _ => true

/-- There is nothing to break or to continue in a block right below a call. -/
lemma Context.permits_of_isCall {c : Context} (hcall : c.isCall = true) (scope : ScopeId)
    (config : Config) (hf : f = .breaks ∨ f = .continues) :
    (Context.block scope .plain c).permits config f = false := by
  cases c with
  | root | block => cases hcall
  | function | method => rcases hf with rfl | rfl <;> rfl

/-! ## Contexts and what stands around -/

namespace Encloses

variable {kind : BlockFlow} {outer : Piece}

/-- The context of an inner piece is the one around it, or a block of its kind in it. -/
lemma canBreak (h : Encloses kind outer p) :
    p.context.canBreak = (kind.permitsBreak || outer.context.canBreak) := by
  cases h with
  | whileTurn | doTurn | forTurn =>
    rw [Flowing.context_ofTurn]
    rfl
  | _ => rfl

lemma canContinue (h : Encloses kind outer p) :
    p.context.canContinue = (kind.permitsContinue || outer.context.canContinue) := by
  cases h with
  | whileTurn | doTurn | forTurn =>
    rw [Flowing.context_ofTurn]
    rfl
  | _ => rfl

lemma canReturn (h : Encloses kind outer p) (atTopLevel : Bool) :
    p.context.canReturn atTopLevel = outer.context.canReturn atTopLevel := by
  cases h with
  | whileTurn | doTurn | forTurn =>
    rw [Flowing.context_ofTurn]
    rfl
  | _ => rfl

/-- What an inner piece permits and its outer piece does not take up, the outer piece permits too. -/
lemma permits (h : Encloses kind outer p) {config : Config} (htakes : outer.takes kind f = false)
    (hp : p.context.permits config f = true) : outer.context.permits config f = true := by
  cases f with
  | next | jumps => rfl
  | breaks =>
    have hkind : kind.permitsBreak = false := htakes
    simpa [Context.permits, h.canBreak, hkind] using hp
  | continues =>
    have hkind : kind.permitsContinue = false := htakes
    simpa [Context.permits, h.canContinue, hkind] using hp
  | returns v => simpa [Context.permits, h.canReturn] using hp

end Encloses

/-- What a piece hands on it does not take up. -/
lemma Piece.not_takes_of_exit {outer : Piece} {kind : BlockFlow} (hne : f ≠ .next)
    (h : outer.answer kind f = .exit f) : outer.takes kind f = false := by
  cases f with
  | next => exact absurd rfl hne
  | breaks | continues => cases kind <;> first | rfl | cases h
  | returns v => rfl
  | jumps label =>
    simp only [answer] at h
    split at h
    · cases h
    · next hlabel => exact Bool.not_eq_true _ ▸ hlabel

/-- What a statement raises on its own its context permits. -/
lemma Piece.Raises.permits (h : Raises s p f) : p.context.permits s.config f = true := by
  cases h with
  | breaks _ h | continues _ h | returns _ _ _ h => exact h
  | jumps => rfl

/-- The pieces inside of a piece run with the same options. -/
lemma Piece.config_inside {outer : Piece}
    (ha : (Evaluator.within k).Asks (fun ev => ev.step outer.task) s p.task s') :
    s'.config = s.config := by
  have hleads := Task.leads (Realm.allows_whole outer.task) (Realm.admits_whole s) ha
  rw [hleads.kept.config, Task.config_inside]

/-- A piece ends only as its context permits. -/
theorem Piece.permitted (hr : ((Evaluator.within n).flow p).run s = .ok f s₁) :
    p.context.permits s.config f = true := by
  -- What a piece ends with is raised by itself or handed on from a piece inside.
  induction n generalizing p s with
  | zero => cases p <;> cases hr
  | succ n ih =>
    by_cases hne : f = .next
    · subst hne
      rfl
    · rcases Piece.origin hr hne with hraises | ⟨kind, q, s', henc, ha, hflow, hexit⟩
      · exact hraises.permits
      · have hinner := ih hflow
        rw [Piece.config_inside ha] at hinner
        exact henc.permits (Piece.not_takes_of_exit hne hexit) hinner

/-! ## Calls -/

/-- The outermost list of a call does not end with a break or a continue. -/
lemma Outermost.not_breaks {ev : Evaluator} {m : Evaluator → Exec α} (h : Outermost ev m s p s')
    (hr : ((Evaluator.within k).flow p).run s' = .ok f s₁) : f ≠ .breaks ∧ f ≠ .continues := by
  obtain ⟨scope, c, hcontext, hcall⟩ := h.context
  have hpermits := Piece.permitted hr
  rw [hcontext] at hpermits
  have hnot : ¬(f = .breaks ∨ f = .continues) := by
    intro hf
    rw [Context.permits_of_isCall hcall scope _ hf] at hpermits
    cases hpermits
  exact ⟨fun hf => hnot (.inl hf), fun hf => hnot (.inr hf)⟩

section Run

variable {m : Evaluator → Exec α} {L : Licence} {Q : α → Prop} {trail : List Task}

/-- A break or a continue that is not caught leads out of what the host asked for. -/
lemma Uncaught.asked {passed : List Piece} (hm : Composed .whole L m Q)
    (h : Uncaught n m s f s₁ trail p passed) (hf : f = .breaks ∨ f = .continues) :
    ∃ (q : Piece) (s'' : State),
      (Evaluator.within n).Asks m s q.task s'' ∧ q.context.permits s.config f = true := by
  induction h with
  | beyond _ _ _ ih => exact ih
  | @outermost trail k p s' hpart hr hcall =>
    cases trail with
    | nil =>
      obtain ⟨rfl, ha⟩ := hpart.of_nil
      have hconfig := (hm.asked (Evaluator.within_keeps k .whole) (Realm.admits_whole s) ha).kept.config
      exact ⟨p, s', ha, hconfig ▸ Piece.permitted hr⟩
    | cons t trail =>
      -- A call permits neither of the two.
      obtain ⟨s₀, -, ha⟩ := hpart.of_cons
      have hnot := (Task.outermost (hcall t rfl) ha).not_breaks hr
      rcases hf with rfl | rfl
      · exact absurd rfl hnot.1
      · exact absurd rfl hnot.2

/-- What is said of the breaks and continues of a run. -/
structure Confined (n : Nat) (m : Evaluator → Exec α) (s : State) : Prop where
  /-- The outermost list of a call does not end with them. -/
  calls : ∀ trail k t (p : Piece) s' f s₁, Part n m s (t :: trail) k p.task s' → t.isCall = true →
    ((Evaluator.within k).flow p).run s' = .ok f s₁ → f ≠ .breaks ∧ f ≠ .continues
  /-- They are caught, unless the host itself asked for code in a context that permits them. -/
  caught : ∀ trail k (p : Piece) s' f s₁, Part n m s trail k p.task s' →
    ((Evaluator.within k).flow p).run s' = .ok f s₁ → f = .breaks ∨ f = .continues →
    Caught n m s f s₁ trail p ∨
      ∃ (q : Piece) (s'' : State),
        (Evaluator.within n).Asks m s q.task s'' ∧ q.context.permits s.config f = true

lemma Composed.confined (hm : Composed .whole L m Q) : Confined n m s := by
  constructor
  · intro trail k t p s' f s₁ hpart hcall hr
    obtain ⟨s₀, -, ha⟩ := hpart.of_cons
    exact (Task.outermost hcall ha).not_breaks hr
  · intro trail k p s' f s₁ hpart hr hf
    have hne : f ≠ .next := by
      rcases hf with rfl | rfl <;> exact nofun
    rcases hpart.caught_or_uncaught hm hr hne with hcaught | ⟨passed, hun⟩
    · exact .inl hcaught
    · exact .inr (hun.asked hm hf)

end Run

/-- A script runs at the root, and nowhere else on its own. -/
lemma Interpreter.asks_run {script : List Stmt}
    (ha : (Evaluator.within n).Asks (fun ev => Interpreter.run ev script) s p.task s') :
    p = .list Interpreter.root script ∧ s' = s := by
  rcases Evaluator.asks_bind ha with ha | ⟨flow, s₂, -, ha⟩
  · obtain ⟨htask, rfl⟩ := Evaluator.asks_flow (p := .list Interpreter.root script) ha
    exact ⟨Piece.task_injective htask, rfl⟩
  · cases flow <;> exact absurd ha (Evaluator.not_asks_const _)

lemma Interpreter.asks_run_self (n : Nat) (script : List Stmt) (s : State) :
    (Evaluator.within n).Asks (fun ev => Interpreter.run ev script) s (.sequence root script) s :=
  (Flowing.composed_flow (.list root script)).asks_bind_left (Evaluator.within_keeps n _)
    (Realm.admits_whole s) Evaluator.asks_flow_self

/-- **Breaks, continues and returns.**  A statement or a list of statements ends with one of them only
if its context permits it.  At the top level of a script there is no break and no continue, and a
return only with the option for it.  Every break and every continue in the run of a script is caught
by the innermost loop or switch, or loop, of the same call. -/
theorem flows_stay_inside (n : Nat) (s : State) :
    (∀ (p : Piece) f s₁, ((Evaluator.within n).flow p).run s = .ok f s₁ →
      p.context.permits s.config f = true) ∧
    (∀ β (m : Evaluator → Exec β), Entry m → Confined n m s) ∧
    ∀ script,
      (∀ f s₁, ((Evaluator.within n).sequence Interpreter.root script).run s = .ok f s₁ →
        f ≠ .breaks ∧ f ≠ .continues ∧ ∀ v, f = .returns v → s.config.topLevelReturn = true) ∧
      ∀ trail k (p : Piece) s' f s₁, Part n (fun ev => Interpreter.run ev script) s trail k p.task s' →
        ((Evaluator.within k).flow p).run s' = .ok f s₁ → f = .breaks ∨ f = .continues →
        Caught n (fun ev => Interpreter.run ev script) s f s₁ trail p := by
  have hconfined : ∀ β (m : Evaluator → Exec β), Entry m → Confined n m s :=
    fun β m hm => (hm.composed (W := .whole) rfl).confined
  refine ⟨fun p f s₁ hr => Piece.permitted hr, hconfined, fun script => ⟨fun f s₁ hr => ?_, ?_⟩⟩
  · have hpermits := Piece.permitted (p := .list Interpreter.root script) hr
    refine ⟨?_, ?_, ?_⟩
    · rintro rfl
      cases hpermits
    · rintro rfl
      cases hpermits
    · rintro v rfl
      exact hpermits
  · intro trail k p s' f s₁ hpart hr hf
    have hcaught := (hconfined _ _ (.run script)).caught trail k p s' f s₁ hpart hr hf
    rcases hcaught with hcaught | ⟨q, s'', ha, hq⟩
    · exact hcaught
    · -- The root permits neither of the two.
      obtain ⟨rfl, rfl⟩ := Interpreter.asks_run ha
      rcases hf with rfl | rfl <;> cases hq

/-- The body of `do break; while (true);`, its condition, and the loop. -/
def breaking : Stmt := ⟨⟨1, 4⟩, .breakLoop⟩

def always : Expr := ⟨⟨1, 18⟩, .literal (.boolean true)⟩

def breakingLoop : Stmt := ⟨⟨1, 1⟩, .doWhile breaking always⟩

/-- A state with an empty root. -/
def rootState : State := { scopes := #[{}] }

/-- A run of this loop gets to the break, and the loop catches it. -/
theorem flows_stay_inside_break :
    Caught 3 (fun ev => Interpreter.run ev [breakingLoop]) rootState .breaks rootState.opened
      [.execute Interpreter.root breakingLoop, .sequence Interpreter.root [breakingLoop]]
      (.statement (.block ⟨1⟩ .loop Interpreter.root) breaking) := by
  have hkeeps := fun n => Evaluator.within_keeps n .whole
  have hadmits := Realm.admits_whole
  let p : Piece := .statement (.block ⟨1⟩ .loop Interpreter.root) breaking
  have hturns : (Evaluator.within 1).Asks (fun ev => ev.runDoWhile Interpreter.root breaking always 1)
      rootState p.task rootState.opened := by
    refine (Flowing.composed_flow p).asks_of_stops (hkeeps 1) (hadmits _) Evaluator.asks_flow_self ?_
    intro ev s₂ hr
    have hturn : (ev.turn Interpreter.root breaking).run rootState = .error .exhausted s₂ :=
      calc (ev.turn Interpreter.root breaking).run rootState
        _ = (ev.flow p >>= fun f => pure (BlockFlow.loop.absorb f)).run rootState.opened := rfl
        _ = .error .exhausted s₂ := run_bind_error hr
    exact ⟨s₂, run_bind_error hturn, rfl⟩
  have hform : Composed .whole .full (fun ev => ev.executeForm Interpreter.root breakingLoop.form)
      fun _ => True := .executeForm (fun _ => trivial) _ _ fun _ _ => trivial
  have hloop := hform.asks_located (p := ⟨1, 1⟩) (hkeeps 1) (hadmits _)
    ((Evaluator.asks_bound_iff (m := fun b ev => ev.runDoWhile _ breaking always b)).mpr hturns)
  have hscript := Interpreter.asks_run_self 3 [breakingLoop] rootState
  have hpart := ((Part.asked hscript).inner (Evaluator.asks_first rfl rfl)).inner hloop
  exact ((flows_stay_inside 3 rootState).2.2 [breakingLoop]).2 _ _ p _ _ _ hpart rfl (.inl rfl)

end ScriptLang
