/-
How a switch runs.

A switch evaluates its discriminant, then the tests of its cases in order, up to the first one that gives
an equal value.  From this case on the bodies run one after the other, each in a block of its own, and
then the default clause, until one of them does not end normally.  Without such a case the default clause
alone runs.  `Switch.Runs` says this with the list of all that is evaluated and run, and a switch does
exactly this (`switch_runs_one_tail`).
-/
import ScriptLang.Proofs.Eval.Ending
import ScriptLang.Proofs.Eval.Tracing

namespace ScriptLang

/-! ## The run of a switch -/

/-- What a switch makes of a flow that ends it. -/
def Flow.leavingSwitch : Flow → Flow
  | .breaks => .next
  | flow => flow

namespace Switch

/-- The context of a clause: a block whose scope is the next new one. -/
def block (c : Context) (s : State) : Context := .block ⟨s.scopes.size⟩ .switch c

variable (ev : Evaluator) (c : Context)

/-- The tests of some cases are evaluated in order, and none of them gives a value equal to `v`. -/
inductive Passes (v : Value) : List (Expr × List Stmt) → State → Trace → State → Prop
  | nil {s} : Passes v [] s [] s
  | cons {test body rest w s s₁ s₂ trace} : (ev.evaluate c test).run s = .ok w s₁ →
      w.equals v = false → Passes v rest s₁ trace s₂ →
      Passes v ((test, body) :: rest) s ((.evaluate c test, s) :: trace) s₂

/-- The choice of the bodies to run: those from the first case on whose test gives a value equal to `v`. -/
inductive Selects (v : Value) : List (Expr × List Stmt) → State → Trace →
    EStateM.Result Halt State (List (List Stmt)) → Prop
  | matched {passed test body rest w s s₁ s₂ trace} : Passes ev c v passed s trace s₁ →
      (ev.evaluate c test).run s₁ = .ok w s₂ → w.equals v = true →
      Selects v (passed ++ (test, body) :: rest) s (trace ++ [(.evaluate c test, s₁)])
        (.ok (body :: rest.map (·.2)) s₂)
  | unmatched {cases s s₁ trace} : Passes ev c v cases s trace s₁ →
      Selects v cases s trace (.ok [] s₁)
  | failed {passed test body rest s s₁ e s₂ trace} : Passes ev c v passed s trace s₁ →
      (ev.evaluate c test).run s₁ = .error e s₂ →
      Selects v (passed ++ (test, body) :: rest) s (trace ++ [(.evaluate c test, s₁)]) (.error e s₂)

/-- Some bodies run one after the other, each in a block of its own, and all of them end normally. -/
inductive Falls : List (List Stmt) → State → Trace → State → Prop
  | nil {s} : Falls [] s [] s
  | cons {body rest s s₁ s₂ trace} :
      (ev.sequence (block c s) body).run s.opened = .ok .next s₁ → Falls rest s₁ trace s₂ →
      Falls (body :: rest) s ((.sequence (block c s) body, s.opened) :: trace) s₂

/-- Bodies run one after the other until one of them does not end normally. -/
inductive Ends : List (List Stmt) → State → Trace → EStateM.Result Halt State Flow → Prop
  | fell {bodies s s₁ trace} : Falls ev c bodies s trace s₁ → Ends bodies s trace (.ok .next s₁)
  | stopped {before body after s s₁ flow s₂ trace} : Falls ev c before s trace s₁ →
      (ev.sequence (block c s₁) body).run s₁.opened = .ok flow s₂ → flow ≠ .next →
      Ends (before ++ body :: after) s (trace ++ [(.sequence (block c s₁) body, s₁.opened)])
        (.ok flow.leavingSwitch s₂)
  | failed {before body after s s₁ e s₂ trace} : Falls ev c before s trace s₁ →
      (ev.sequence (block c s₁) body).run s₁.opened = .error e s₂ →
      Ends (before ++ body :: after) s (trace ++ [(.sequence (block c s₁) body, s₁.opened)])
        (.error e s₂)

/-- The run of a switch, with all that it evaluates and runs. -/
inductive Runs (d : Expr) (cases : List (Expr × List Stmt)) (default : Option (List Stmt)) (s : State) :
    Trace → EStateM.Result Halt State Flow → Prop
  | undecided {e s₁} : (ev.evaluate c d).run s = .error e s₁ →
      Runs d cases default s [(.evaluate c d, s)] (.error e s₁)
  | unselected {v s₁ e s₂ trace} : (ev.evaluate c d).run s = .ok v s₁ →
      Selects ev c v cases s₁ trace (.error e s₂) →
      Runs d cases default s ((.evaluate c d, s) :: trace) (.error e s₂)
  | selected {v s₁ bodies s₂ tests clauses r} : (ev.evaluate c d).run s = .ok v s₁ →
      Selects ev c v cases s₁ tests (.ok bodies s₂) →
      Ends ev c (bodies ++ default.toList) s₂ clauses r →
      Runs d cases default s ((.evaluate c d, s) :: (tests ++ clauses)) r

variable {ev c}

/-! ## Tests -/

/-- A test that gives another value comes before all that follows. -/
lemma Selects.cons {v w : Value} {test : Expr} {body : List Stmt} {rest : List (Expr × List Stmt)}
    {s s₁ : State} {trace : Trace} {r : EStateM.Result Halt State (List (List Stmt))}
    (hrun : (ev.evaluate c test).run s = .ok w s₁) (hne : w.equals v = false)
    (h : Selects ev c v rest s₁ trace r) :
    Selects ev c v ((test, body) :: rest) s ((.evaluate c test, s) :: trace) r := by
  cases h with
  | matched hpasses hmatch heq => exact .matched (.cons hrun hne hpasses) hmatch heq
  | unmatched hpasses => exact .unmatched (.cons hrun hne hpasses)
  | failed hpasses hfail => exact .failed (.cons hrun hne hpasses) hfail

variable (n : Nat)

lemma selects_matchingBodies (c : Context) (v : Value) (cases : List (Expr × List Stmt)) (s : State) :
    ∃ trace, Selects (.within n) c v cases s trace
        (((Evaluator.within n).matchingBodies c v cases).run s) ∧
      Traced n (fun ev => ev.matchingBodies c v cases) s trace := by
  induction cases generalizing s with
  | nil => exact ⟨[], .unmatched .nil, .silent _ s⟩
  | cons clause rest ih =>
    obtain ⟨test, body⟩ := clause
    cases hrun : ((Evaluator.within n).evaluate c test).run s with
    | error e s₁ =>
      refine ⟨[(.evaluate c test, s)], ?_, .perform_bind_error hrun⟩
      rw [Evaluator.matchingBodies, run_bind_error hrun]
      exact .failed .nil hrun
    | ok w s₁ =>
      by_cases heq : w.equals v = true
      · refine ⟨[(.evaluate c test, s)], ?_, .perform_bind hrun ?_⟩
        · rw [Evaluator.matchingBodies, run_bind_ok hrun, if_pos heq]
          exact .matched .nil hrun heq
        · simp only [heq, if_true]
          exact .silent _ s₁
      · obtain ⟨trace, hselects, htraced⟩ := ih s₁
        refine ⟨(.evaluate c test, s) :: trace, ?_, .perform_bind hrun ?_⟩
        · rw [Evaluator.matchingBodies, run_bind_ok hrun, if_neg heq]
          exact hselects.cons hrun (Bool.eq_false_of_not_eq_true heq)
        · simp only [heq, Bool.false_eq_true, if_false]
          exact htraced

/-! ## Clauses -/

/-- A body that ends normally comes before all that follows. -/
lemma Ends.cons {body : List Stmt} {rest : List (List Stmt)} {s s₁ : State} {trace : Trace}
    {r : EStateM.Result Halt State Flow}
    (hrun : (ev.sequence (block c s) body).run s.opened = .ok .next s₁) (h : Ends ev c rest s₁ trace r) :
    Ends ev c (body :: rest) s ((.sequence (block c s) body, s.opened) :: trace) r := by
  cases h with
  | fell hfalls => exact .fell (.cons hrun hfalls)
  | stopped hfalls hstop hne => exact .stopped (.cons hrun hfalls) hstop hne
  | failed hfalls hfail => exact .failed (.cons hrun hfalls) hfail

lemma absorb_switch {flow : Flow} (h : flow ≠ .next) :
    BlockFlow.switch.absorb flow = .exit flow.leavingSwitch := by
  cases flow with
  | next => exact absurd rfl h
  | breaks | continues | returns | jumps => rfl

lemma ends_runClauses (c : Context) (bodies : List (List Stmt)) (s : State) :
    ∃ trace, Ends (.within n) c bodies s trace (((Evaluator.within n).runClauses c bodies).run s) ∧
      Traced n (fun ev => ev.runClauses c bodies) s trace := by
  induction bodies generalizing s with
  | nil => exact ⟨[], .fell .nil, .silent _ s⟩
  | cons body rest ih =>
    -- The block is made without a question.
    have hopen : ∀ ev : Evaluator, (ev.runClauses c (body :: rest)).run s =
        (ev.sequence (block c s) body >>= fun flow =>
          match BlockFlow.switch.absorb flow with
          | .proceed => ev.runClauses c rest
          | .exit flow => return flow).run s.opened := by
      intro ev
      refine congrArg (EStateM.run · s.opened) (bind_congr fun flow => ?_)
      cases flow <;> rfl
    cases hrun : ((Evaluator.within n).sequence (block c s) body).run s.opened with
    | error e s₁ =>
      refine ⟨[(.sequence (block c s) body, s.opened)], ?_, .congr (.perform_bind_error hrun) hopen⟩
      rw [hopen, run_bind_error hrun]
      exact .failed .nil hrun
    | ok flow s₁ =>
      by_cases hnext : flow = .next
      · subst hnext
        obtain ⟨trace, hends, htraced⟩ := ih s₁
        refine ⟨(.sequence (block c s) body, s.opened) :: trace, ?_,
          .congr (.perform_bind hrun htraced) hopen⟩
        rw [hopen, run_bind_ok hrun]
        exact hends.cons hrun
      · have hexit := absorb_switch hnext
        refine ⟨[(.sequence (block c s) body, s.opened)], ?_, .congr (.perform_bind hrun ?_) hopen⟩
        · rw [hopen, run_bind_ok hrun, hexit]
          exact .stopped .nil hrun hnext
        · simp only [hexit]
          exact .silent _ s₁

/-! ## Places -/

lemma settles_matchingBodies (c : Context) (v : Value) (cases : List (Expr × List Stmt)) :
    ((Evaluator.within n).matchingBodies c v cases).Settles := by
  induction cases with
  | nil => exact .pure _
  | cons clause rest ih =>
    refine .bind (Evaluator.settles_evaluate n c clause.1) fun w => ?_
    split
    · exact .pure _
    · exact ih

lemma settles_runClauses (c : Context) (bodies : List (List Stmt)) :
    ((Evaluator.within n).runClauses c bodies).Settles := by
  induction bodies with
  | nil => exact .pure _
  | cons body rest ih =>
    have hblock : (Exec.newBlock c .switch).Settles := by
      rintro s e s' ⟨⟩
    refine .bind hblock fun block => .bind (Evaluator.settles_sequence n block body) fun flow => ?_
    split
    · exact .pure _
    · exact ih

lemma settles_runSwitch (c : Context) (d : Expr) (cases : List (Expr × List Stmt))
    (default : Option (List Stmt)) : ((Evaluator.within n).runSwitch c d cases default).Settles := by
  rw [Evaluator.runSwitch_eq]
  exact .bind (Evaluator.settles_evaluate n c d) fun v =>
    .bind (settles_matchingBodies n c v cases) fun _ => settles_runClauses n c _

/-! ## Switches -/

lemma runs_runSwitch (c : Context) (d : Expr) (cases : List (Expr × List Stmt))
    (default : Option (List Stmt)) (s : State) :
    ∃ trace, Runs (.within n) c d cases default s trace
        (((Evaluator.within n).runSwitch c d cases default).run s) ∧
      Traced n (fun ev => ev.runSwitch c d cases default) s trace := by
  simp only [Evaluator.runSwitch_eq]
  cases hd : ((Evaluator.within n).evaluate c d).run s with
  | error e s₁ =>
    refine ⟨[(.evaluate c d, s)], ?_, .perform_bind_error hd⟩
    rw [run_bind_error hd]
    exact .undecided hd
  | ok v s₁ =>
    obtain ⟨tests, hselects, htests⟩ := selects_matchingBodies n c v cases s₁
    have hmatching : Composed .whole .full (fun ev => ev.matchingBodies c v cases) _ :=
      .matchingBodies (fun _ _ => trivial) c v cases
    cases hm : ((Evaluator.within n).matchingBodies c v cases).run s₁ with
    | error e s₂ =>
      rw [hm] at hselects
      refine ⟨(.evaluate c d, s) :: tests, ?_, .perform_bind hd (.bind_error hmatching htests hm)⟩
      rw [run_bind_ok hd, run_bind_error hm]
      exact .unselected hd hselects
    | ok bodies s₂ =>
      rw [hm] at hselects
      obtain ⟨clauses, hends, hclauses⟩ := ends_runClauses n c (bodies ++ default.toList) s₂
      refine ⟨(.evaluate c d, s) :: (tests ++ clauses), ?_,
        .perform_bind hd (.bind hmatching htests hm hclauses)⟩
      rw [run_bind_ok hd, run_bind_ok hm]
      exact .selected hd hselects hends

end Switch

open Switch in
/-- **A switch runs one contiguous tail of its clauses.**  For every discriminant, list of cases and default
clause, and with every bound, to execute the switch has the outcome that `Runs` says, and what is evaluated
and run for it is what the trace of `Runs` lists: the discriminant, the tests up to the first one that
gives an equal value, and the bodies from there on, with the default clause as the last one, up to the
first one that does not end normally.  A failure ends both the trace and the switch.  The place of the
switch does not matter. -/
theorem switch_runs_one_tail (n : Nat) (c : Context) (p : Position) (d : Expr)
    (cases : List (Expr × List Stmt)) (default : Option (List Stmt)) (s : State) :
    ∃ trace, Runs (.within n) c d cases default s trace
        (((Evaluator.within (n + 1)).execute c ⟨p, .switch d cases default⟩).run s) ∧
      Traced n (fun ev => ev.step (.execute c ⟨p, .switch d cases default⟩)) s trace := by
  have hcomposed : Composed .whole .full (fun ev => ev.runSwitch c d cases default) fun _ => True :=
    .runSwitch (fun _ => trivial) c d cases default
  obtain ⟨trace, hruns, htraced⟩ := runs_runSwitch n c d cases default s
  refine ⟨trace, ?_, htraced.located hcomposed⟩
  show Runs _ _ _ _ _ _ _ ((Exec.located p ((Evaluator.within n).runSwitch c d cases default)).run s)
  rw [(settles_runSwitch n c d cases default).located_eq]
  exact hruns

end ScriptLang
