/-
Running statements, functions and constructors follows every regime.

A list of statements, a loop and a switch may go on as long as their bound allows.  With a higher bound
they do the same and then more.  A function and a constructor run one level deeper than the call; what
they do there starts with a scope of their own.
-/
import ScriptLang.Proofs.Eval.ExpressionRules
import ScriptLang.Proofs.Eval.Labels

namespace ScriptLang

variable {α β : Type}

/-! ## Outcomes of effects -/

namespace Exec

variable (c : Context) (s : State)

lemma run_hoist (name : String) (kind : BindingKind) :
    (hoist c name kind).run s =
      match (s.scopeAt c.scope).hoist (s.services.naming.keep name) kind with
      | .ok scope => .ok () (s.withScope c.scope scope)
      | .error cause => .error (.fault ⟨cause, none⟩) s := by
  have hscope : (scopeOf c.scope).run s = .ok (s.scopeAt c.scope) s := rfl
  have hname : (keptName name).run s = .ok (s.services.naming.keep name) s := rfl
  simp only [hoist, run_bind_ok hscope, run_bind_ok hname]
  cases (s.scopeAt c.scope).hoist (s.services.naming.keep name) kind <;> rfl

lemma run_declareLabel (label : String) :
    (declareLabel c label).run s =
      match (s.scopeAt c.scope).declareLabel label with
      | .ok scope => .ok () (s.withScope c.scope scope)
      | .error cause => .error (.fault ⟨cause, none⟩) s := by
  have hscope : (scopeOf c.scope).run s = .ok (s.scopeAt c.scope) s := rfl
  simp only [declareLabel, run_bind_ok hscope]
  cases (s.scopeAt c.scope).declareLabel label <;> rfl

lemma run_checkCancelled :
    checkCancelled.run s =
      if s.stopped then .error (.fault ⟨.cancelled, none⟩) s else .ok () s := by
  have hrun : checkCancelled.run s =
      (if s.stopped then fail .cancelled else pure () : Exec Unit).run s := rfl
  rw [hrun]
  cases s.stopped <;> rfl

end Exec

namespace Obeys

variable {R : Regime} {n : Nat} {t : Task} {s₀ s : State} {Q : α → State → Prop} {c : Context}

/-- A statement is only started if the script was not cancelled. -/
lemma checkCancelled_bind {k k' : Unit → Evaluator → Exec α}
    (h : s.stopped = false → Agrees R n t s₀ (k ()) (k' ()) s Q) :
    Agrees R n t s₀ (fun ev => Exec.checkCancelled >>= fun u => k u ev)
      (fun ev => Exec.checkCancelled >>= fun u => k' u ev) s Q := by
  cases hstopped : s.stopped with
  | true =>
    refine .failed (f := ⟨.cancelled, none⟩) ?_
    rw [Exec.run_checkCancelled, hstopped]
    rfl
  | false =>
    refine .read (b := ()) ?_ (h hstopped)
    rw [Exec.run_checkCancelled, hstopped]
    rfl

/-! ## Lists of statements -/

lemma hoistName {body : List Stmt} {st : Stmt} {name : String} {kind : BindingKind}
    (hst : st ∈ body) (hname : (name, kind) ∈ st.form.declared) :
    Obeys R n (.sequence c body) s₀ (fun _ => Exec.hoist c name kind) s fun _ _ => True := by
  cases hscope : (s.scopeAt c.scope).hoist (s.services.naming.keep name) kind with
  | ok scope =>
    have hrun : (Exec.hoist c name kind).run s = .ok () (s.withScope c.scope scope) := by
      rw [Exec.run_hoist, hscope]
    exact .effect hrun (fun hs => R.change hs (.reserved hst hname hscope)) trivial
  | error cause =>
    refine .fault (f := ⟨cause, none⟩) ?_
    rw [Exec.run_hoist, hscope]

lemma declareLabel {body : List Stmt} {st : Stmt} {name : String} (hst : st ∈ body)
    (hname : st.form = .label name) :
    Obeys R n (.sequence c body) s₀ (fun _ => Exec.declareLabel c name) s fun _ _ => True := by
  cases hscope : (s.scopeAt c.scope).declareLabel name with
  | ok scope =>
    have hrun : (Exec.declareLabel c name).run s = .ok () (s.withScope c.scope scope) := by
      rw [Exec.run_declareLabel, hscope]
    exact .effect hrun (fun hs => R.change hs (.labelled hst hname hscope)) trivial
  | error cause =>
    refine .fault (f := ⟨cause, none⟩) ?_
    rw [Exec.run_declareLabel, hscope]

lemma hoist {body : List Stmt} {st : Stmt} (hst : st ∈ body) :
    Obeys R n (.sequence c body) s₀ (fun _ => st.hoist c) s fun _ _ => True := by
  have hname : ∀ name kind, (name, kind) ∈ st.form.declared → ∀ s',
      Obeys R n (.sequence c body) s₀ (fun _ => Exec.hoist c name kind) s' fun _ _ => True :=
    fun name kind h s' => hoistName hst h
  unfold Stmt.hoist
  cases hform : st.form with
  | «variables» declarators =>
    rw [hform] at hname
    refine Agrees.weaken (.forM (P := fun _ _ => True) _ (fun d hd s' _ => ?_)
      fun _ _ _ _ _ => trivial) fun _ _ _ _ => trivial
    exact hname d.1 .variable (List.mem_map_of_mem hd) s'
  | function decl =>
    rw [hform] at hname
    dsimp only
    cases hdecl : decl.name with
    | none => exact .pure trivial
    | some name => exact hname name .function (by simp [StmtForm.declared, hdecl]) s
  | classDecl decl =>
    rw [hform] at hname
    exact hname decl.name .classDecl List.mem_cons_self s
  | label name => exact declareLabel hst hform
  | _ => exact .pure trivial

lemma hoistAll (body : List Stmt) :
    Obeys R n (.sequence c body) s₀ (fun _ => ScriptLang.hoistAll c body) s fun _ _ => True :=
  Agrees.weaken (.forM (P := fun _ _ => True) _ (fun _ hst _ _ => .located (hoist hst))
    fun _ _ _ _ _ => trivial) fun _ _ _ _ => trivial

lemma runFrom {body rest : List Stmt} {bound bound' : Nat} (hrest : ∀ st ∈ rest, st ∈ body)
    (hle : bound ≤ bound') (hbound : bound = 0 → ∀ s, R.Good s → R.Stalls s) :
    Agrees R n (.sequence c body) s₀ (fun ev => ev.runFrom c body bound rest)
      (fun ev => ev.runFrom c body bound' rest) s R.Ends := by
  induction bound generalizing bound' rest s with
  | zero =>
    cases rest with
    | nil =>
      have hnext : Obeys R n (.sequence c body) s₀ (fun _ => pure .next) s R.Ends := .pure nofun
      exact hnext.congr (fun _ => by simp only [Evaluator.runFrom]) fun _ => by
        simp only [Evaluator.runFrom]
    | cons st rest => exact .exhausted fun hs => hbound rfl s (R.good_of_inside hs)
  | succ bound ih =>
    obtain ⟨bound', rfl⟩ := Nat.exists_eq_add_of_lt hle
    have hle' := Nat.le_add_right bound bound'
    cases rest with
    | nil => exact .pure nofun
    | cons st rest =>
      refine checkCancelled_bind fun hrun => .inside fun hs => ?_
      -- The statement is started, so the bound may be reached anywhere from here on.
      have hstalls := R.stalls_of_running (R.good_of_inside hs) hrun
      refine .bind (.ask (.listed hrun (hrest st List.mem_cons_self))) fun flow s' _ hflow => ?_
      cases flow with
      | next => exact ih (fun st' h => hrest st' (List.mem_cons_of_mem st h)) hle' fun _ => hstalls
      | jumps label =>
        dsimp only
        cases htarget : fromLabel? label body with
        | none => exact .pure nofun
        | some target =>
          obtain ⟨_, _, before, -, -, hbody⟩ := form_of_fromLabel? htarget
          refine ih (fun st' h => ?_) hle' fun _ => hstalls
          rw [hbody]
          exact List.mem_append_right before h
      | breaks | continues | returns => exact .pure hflow

lemma runSequence (c : Context) (body : List Stmt) :
    Obeys R n (.sequence c body) s₀ (fun ev => ev.runSequence c body) s R.Ends := by
  refine .bind (hoistAll body) fun _ s' _ _ => ?_
  refine .bounded (m := fun bound ev => ev.runFrom c body bound body) fun bound bound' hbound hle => ?_
  refine .inside fun hs => runFrom (fun _ h => h) hle fun hzero => ?_
  exact R.stalls_of_flow hs rfl (hbound.symm.trans hzero)

/-! ## Loops -/

lemma ends_absorb {flow flow' : Flow} {kind : BlockFlow} (h : R.Ends flow s)
    (habsorb : kind.absorb flow = .exit flow') : R.Ends flow' s := by
  cases kind <;> cases flow <;> cases habsorb <;> first | exact h | exact nofun

section Loops

variable {st body : Stmt} {around : Context} {condition : Expr}

/-- After a turn the bound on the steps may be reached everywhere. -/
lemma turn (h : st.form.Turns s₀.scopes.size c around body) :
    Obeys R n (.execute c st) s₀ (fun ev => ev.turn around body) s fun absorbed s' =>
      (∀ flow, absorbed = .exit flow → R.Ends flow s') ∧ ∀ s, R.Good s → R.Stalls s := by
  refine checkCancelled_bind fun hrun => .inside fun hs => ?_
  have hstalls := R.stalls_of_running (R.good_of_inside hs) hrun
  refine .bind (newBlock .loop) fun block s' _ hblock => ?_
  obtain ⟨rfl, rfl⟩ := hblock
  have hlead : Lead R.Kept R.Sound (.execute c st) s₀ s.opened
      (body.turn (.block ⟨s.scopes.size⟩ .loop around)) s.opened :=
    .turn hrun h (R.scopes_of_inside hs)
  have hexit : ∀ flow s', R.Ends flow s' →
      Obeys R n (.execute c st) s₀ (fun _ => pure (BlockFlow.loop.absorb flow)) s'
        fun absorbed s' => (∀ flow, absorbed = .exit flow → R.Ends flow s') ∧
          ∀ s, R.Good s → R.Stalls s :=
    fun flow s' hflow => .pure ⟨fun _ habsorb => ends_absorb hflow habsorb, hstalls⟩
  unfold Stmt.turn at hlead
  cases hform : body.form with
  | block statements =>
    rw [hform] at hlead
    exact .bind (.ask hlead) fun flow s' _ hflow => hexit flow s' hflow
  | _ =>
    rw [hform] at hlead
    exact .bind (.ask hlead) fun flow s' _ hflow => hexit flow s' hflow

lemma runWhile {bound bound' : Nat} (h : st.form.Turns s₀.scopes.size c around body)
    (he : (Task.execute c st).Evaluates s₀ around condition) (hle : bound ≤ bound')
    (hbound : bound = 0 → ∀ s, R.Good s → R.Stalls s) :
    Agrees R n (.execute c st) s₀ (fun ev => ev.runWhile around condition body bound)
      (fun ev => ev.runWhile around condition body bound') s R.Ends := by
  induction bound generalizing bound' s with
  | zero => exact .exhausted fun hs => hbound rfl s (R.good_of_inside hs)
  | succ bound ih =>
    obtain ⟨bound', rfl⟩ := Nat.exists_eq_add_of_lt hle
    refine .bind (evaluate he) fun v _ _ _ => .ite (fun _ => ?_) fun _ => .pure nofun
    refine .bind (turn h) fun absorbed _ _ hturn => ?_
    cases absorbed with
    | exit flow => exact .pure (hturn.1 flow rfl)
    | proceed => exact ih (Nat.le_add_right bound bound') fun _ => hturn.2

lemma runDoWhile {bound bound' : Nat} (h : st.form.Turns s₀.scopes.size c around body)
    (he : (Task.execute c st).Evaluates s₀ around condition) (hle : bound ≤ bound')
    (hbound : bound = 0 → ∀ s, R.Good s → R.Stalls s) :
    Agrees R n (.execute c st) s₀ (fun ev => ev.runDoWhile around body condition bound)
      (fun ev => ev.runDoWhile around body condition bound') s R.Ends := by
  induction bound generalizing bound' s with
  | zero => exact .exhausted fun hs => hbound rfl s (R.good_of_inside hs)
  | succ bound ih =>
    obtain ⟨bound', rfl⟩ := Nat.exists_eq_add_of_lt hle
    refine .bind (turn h) fun absorbed _ _ hturn => ?_
    cases absorbed with
    | exit flow => exact .pure (hturn.1 flow rfl)
    | proceed =>
      refine .bind (evaluate he) fun v _ _ _ => .ite (fun _ => ?_) fun _ => .pure nofun
      exact ih (Nat.le_add_right bound bound') fun _ => hturn.2

omit condition in
lemma holds {condition : Option Expr} (h : ∀ e ∈ condition, t.Evaluates s₀ c e) :
    Obeys R n t s₀ (fun ev => ev.holds c condition) s fun _ _ => True := by
  cases condition with
  | none => exact .pure trivial
  | some e => exact .bind (evaluate (h e rfl)) fun _ _ _ _ => .pure trivial

lemma runFor {bound bound' : Nat} {condition : Option Expr} {increment : List Expr}
    (h : st.form.Turns s₀.scopes.size c around body)
    (he : ∀ e ∈ condition.toList ++ increment, (Task.execute c st).Evaluates s₀ around e)
    (hle : bound ≤ bound') (hbound : bound = 0 → ∀ s, R.Good s → R.Stalls s) :
    Agrees R n (.execute c st) s₀ (fun ev => ev.runFor around condition increment body bound)
      (fun ev => ev.runFor around condition increment body bound') s R.Ends := by
  have hcondition : ∀ e ∈ condition, (Task.execute c st).Evaluates s₀ around e := fun e h =>
    he e (List.mem_append_left _ (Option.mem_toList.mpr h))
  induction bound generalizing bound' s with
  | zero => exact .exhausted fun hs => hbound rfl s (R.good_of_inside hs)
  | succ bound ih =>
    obtain ⟨bound', rfl⟩ := Nat.exists_eq_add_of_lt hle
    refine .bind (holds hcondition) fun goesOn _ _ _ => .ite (fun _ => ?_) fun _ => .pure nofun
    refine .bind (turn h) fun absorbed _ _ hturn => ?_
    cases absorbed with
    | exit flow => exact .pure (hturn.1 flow rfl)
    | proceed =>
      refine .bind (evaluateAll fun e h => he e (List.mem_append_right _ h)) fun _ _ _ _ => ?_
      exact ih (Nat.le_add_right bound bound') fun _ => hturn.2

end Loops

/-! ## Statements -/

lemma runClauses {st : Stmt} {bodies : List (List Stmt)}
    (h : ∀ body ∈ bodies, (.switch, body) ∈ st.form.blocks) :
    Obeys R n (.execute c st) s₀ (fun ev => ev.runClauses c bodies) s R.Ends := by
  induction bodies generalizing s with
  | nil => exact .pure nofun
  | cons body bodies ih =>
    refine .inside fun hs => .bind (newBlock .switch) fun block s' _ hblock => ?_
    obtain ⟨rfl, rfl⟩ := hblock
    refine .bind (.ask (.block (h body List.mem_cons_self) (R.scopes_of_inside hs)))
      fun flow s' _ hflow => ?_
    cases habsorb : BlockFlow.switch.absorb flow with
    | exit flow' => exact .pure (ends_absorb hflow habsorb)
    | proceed => exact ih fun body' h' => h body' (List.mem_cons_of_mem body h')

lemma matchingBodies (value : Value) {cases : List (Expr × List Stmt)}
    (h : ∀ clause ∈ cases, t.Evaluates s₀ c clause.1) :
    Obeys R n t s₀ (fun ev => ev.matchingBodies c value cases) s fun bodies _ =>
      ∀ body ∈ bodies, body ∈ cases.map (·.2) := by
  induction cases generalizing s with
  | nil => exact .pure fun _ h => h
  | cons clause rest ih =>
    refine .bind (evaluate (h clause List.mem_cons_self)) fun _ _ _ _ =>
      .ite (fun _ => .pure fun _ h => h) fun _ => ?_
    refine (ih fun clause' h' => h clause' (List.mem_cons_of_mem clause h')).weaken ?_
    exact fun bodies _ _ hbodies body hbody => List.mem_cons_of_mem _ (hbodies body hbody)

lemma declareVariables {st : Stmt} {declarators : List (String × Option Expr)}
    (he : ∀ d ∈ declarators, ∀ e ∈ d.2, (Task.execute c st).Evaluates s₀ c e)
    (hname : ∀ d ∈ declarators, (d.1, .variable) ∈ st.form.declared) :
    Obeys R n (.execute c st) s₀ (fun ev => ev.declareVariables c declarators) s fun _ _ => True := by
  induction declarators generalizing s with
  | nil => exact .pure trivial
  | cons d rest ih =>
    obtain ⟨name, initializer⟩ := d
    have hrest : ∀ v s', R.Sound v s' → Obeys R n (.execute c st) s₀ (fun ev => do
        Exec.declare c name .variable v
        ev.declareVariables c rest) s' fun _ _ => True := by
      intro v s' hv
      refine .bind (declare (.declared (hname _ List.mem_cons_self) hv)) fun _ _ _ _ => ih ?_ ?_
      · exact fun d hd => he d (List.mem_cons_of_mem _ hd)
      · exact fun d hd => hname d (List.mem_cons_of_mem _ hd)
    cases initializer with
    | some e =>
      exact .bind (evaluate (he _ List.mem_cons_self e rfl)) fun v s' _ hv => hrest v s' hv
    | none => exact .bind nullValue fun v s' _ hv => hrest v s' hv

lemma executeForm (c : Context) (st : Stmt) :
    Obeys R n (.execute c st) s₀ (fun ev => ev.executeForm c st.form) s R.Ends := by
  have he : ∀ e ∈ st.form.parts, (Task.execute c st).Evaluates s₀ c e := fun _ h => .inStatement h
  refine .inside fun hs => ?_
  have hstalls := R.stalls_of_flow hs rfl
  have hscopes := R.scopes_of_inside hs
  cases hform : st.form with
  | expr e =>
    rw [hform] at he
    exact .bind (evaluate (he e List.mem_cons_self)) fun _ _ _ _ => .pure nofun
  | «variables» declarators =>
    rw [hform] at he
    refine .bind (declareVariables (fun d hd e hinit => ?_) fun d hd => ?_) fun _ _ _ _ => .pure nofun
    · exact he e (List.mem_filterMap.mpr ⟨d, hd, hinit⟩)
    · rw [hform]
      exact List.mem_map_of_mem hd
  | function decl =>
    simp only [Evaluator.executeForm]
    cases hname : decl.name with
    | none => exact .pure nofun
    | some name =>
      refine .bind (newClosure (.statement hform)) fun f _ _ hf => ?_
      have hdeclared : (name, .function) ∈ st.form.declared := by
        simp [hform, StmtForm.declared, hname]
      exact .bind (declare (.declared hdeclared hf)) fun _ _ _ _ => .pure nofun
  | classDecl decl =>
    rw [hform] at he
    have hdeclared : (decl.name, .classDecl) ∈ st.form.declared := by simp [hform, StmtForm.declared]
    refine .bind (createClass (.statement hform) fun e h => he e (Option.mem_toList.mpr h))
      fun id _ _ hid => .bind (classValue hid) fun v _ _ hv => ?_
    exact .bind (declare (.declared hdeclared hv)) fun _ _ _ _ => .pure nofun
  | block body =>
    refine .bind (newBlock .plain) fun block _ _ hblock => ?_
    obtain ⟨rfl, rfl⟩ := hblock
    exact .ask (.block (by simp [hform, StmtForm.blocks]) hscopes)
  | ifElse condition onTrue onFalse =>
    rw [hform] at he
    refine .bind (evaluate (he condition List.mem_cons_self)) fun v s' _ _ => ?_
    refine .ite (fun _ => ?_) fun _ => ?_
    · exact .ask (.branch (by simp [hform, StmtForm.branches]))
    · cases onFalse with
      | none => exact .pure nofun
      | some st' => exact .ask (.branch (by simp [hform, StmtForm.branches]))
  | whileLoop condition body =>
    rw [hform] at he
    refine .bounded (m := fun bound ev => ev.runWhile c condition body bound) fun _ _ hbound hle => ?_
    exact runWhile (hform ▸ .whileLoop) (he condition List.mem_cons_self) hle fun hzero =>
      hstalls (hbound.symm.trans hzero)
  | doWhile body condition =>
    rw [hform] at he
    refine .bounded (m := fun bound ev => ev.runDoWhile c body condition bound) fun _ _ hbound hle => ?_
    exact runDoWhile (hform ▸ .doWhile) (he condition List.mem_cons_self) hle fun hzero =>
      hstalls (hbound.symm.trans hzero)
  | forLoop init condition increment body =>
    refine .bind (newBlock .plain) fun block _ _ hblock => ?_
    obtain ⟨rfl, rfl⟩ := hblock
    refine .bind (.ask (.block (by simp [hform, StmtForm.blocks]) hscopes)) fun flow s' _ hflow => ?_
    cases flow with
    | next =>
      refine .bounded (m := fun bound ev => ev.runFor _ condition increment body bound)
        fun _ _ hbound hle => ?_
      exact runFor (hform ▸ .forLoop hscopes) (fun e h => .inLoop hform h hscopes) hle fun hzero =>
        hstalls (hbound.symm.trans hzero)
    | breaks | continues | returns | jumps => exact .pure hflow
  | switch discriminant cases default =>
    rw [hform] at he
    simp only [Evaluator.executeForm, Evaluator.runSwitch_eq]
    refine .bind (evaluate (he discriminant List.mem_cons_self)) fun value _ _ _ => ?_
    have hclauses : ∀ clause ∈ cases, (Task.execute c st).Evaluates s₀ c clause.1 := fun clause h =>
      he clause.1 (List.mem_cons_of_mem _ (List.mem_map_of_mem h))
    refine .bind (matchingBodies value hclauses) fun bodies _ _ hbodies => runClauses fun body h => ?_
    rw [hform]
    refine List.mem_map_of_mem (List.mem_append.mpr ?_)
    rcases List.mem_append.mp h with h | h
    · exact .inl (hbodies body h)
    · exact .inr h
  | label | empty => exact .pure nofun
  | goto label => exact .read (b := _) rfl (.ite (fun _ => .pure nofun) fun _ => .fail)
  | breakLoop | continueLoop => exact .ite (fun _ => .pure nofun) fun _ => .fail
  | returnValue value =>
    rw [hform] at he
    have hreturns : ∀ v s', R.Sound v s' →
        Obeys R n (.execute c st) s₀ (fun _ => pure (.returns v)) s' R.Ends := by
      intro v s' hv
      refine .pure fun w hw => ?_
      cases hw
      exact hv
    refine .read (b := s) rfl (.ite (fun _ => ?_) fun _ => .fail)
    cases value with
    | some e =>
      exact .bind (evaluate (he e List.mem_cons_self)) fun v s' _ hv => hreturns v s' hv
    | none => exact .bind nullValue fun v s' _ hv => hreturns v s' hv

/-! ## Functions -/

lemma runIn {frame : Frame} {decl : FunctionDecl} {args : List Value} :
    Obeys R n (.invoke frame decl args) s₀
      (fun ev => ev.runIn (frame.context ⟨s₀.scopes.size⟩) decl args) s R.Sound := by
  refine .inside fun hs => ?_
  have hargs : ∀ v ∈ args, R.Sound v s := fun v hv => R.sound_of_mem_values hs hv
  have hscope : (frame.context ⟨s₀.scopes.size⟩).scope = ⟨s₀.scopes.size⟩ := by cases frame <;> rfl
  refine .bind (bindParameters rfl hscope decl (fun p hp e h => .default hp h) hargs)
    fun _ s₁ _ _ => .inside fun hs₁ => ?_
  have hbody : Obeys R n (.invoke frame decl args) s₀
      (fun ev => ev.runBody (frame.context ⟨s₀.scopes.size⟩) decl.body) s₁ R.Ends := by
    refine .bind (newBlock .plain) fun block _ _ hblock => ?_
    obtain ⟨rfl, rfl⟩ := hblock
    exact .ask (.body (R.scopes_of_inside hs₁))
  refine .bind hbody fun flow s₂ _ hflow => ?_
  cases flow with
  | returns v => exact .pure (hflow v rfl)
  | jumps label => exact .fail
  | next | breaks | continues => exact nullValue

/-! ## Constructors -/

lemma refuseArguments (cls : Class) (args : List Value) :
    Obeys R n t s₀ (fun _ => Evaluator.refuseArguments cls args) s fun _ _ => True :=
  .ite (fun _ => .pure trivial) fun _ => .fail

/-- A call of `super` is split off a body with the statements after it left. -/
lemma splitSuperCall_suffix (body : List Stmt) : (Evaluator.splitSuperCall body).2 <:+ body := by
  cases body with
  | nil => exact List.suffix_rfl
  | cons st rest =>
    simp only [Evaluator.splitSuperCall]
    split
    · exact List.suffix_cons st rest
    · exact List.suffix_rfl

lemma isSome_field?_setField {heap : Heap} {i : InstanceId} (h : (heap.instance? i).isSome)
    (key : String) (v : Value) : ((heap.setField i key v).field? i key).isSome := by
  obtain ⟨inst, hinst⟩ := Option.isSome_iff_exists.mp h
  simp only [Heap.instance?] at hinst
  simp [Heap.field?, Heap.instance?, Heap.setField, Array.getElem?_modify, hinst]

section SetUp

variable {id : ClassId} {i : InstanceId} {args : List Value} {cls : Class}
  (hcls : s₀.registry.get? id = some cls)

include hcls

/-- A field of the class gets its initial value. -/
lemma setUpField {f : Field} (hf : f ∈ cls.instanceFields) {v : Value} (hv : R.Sound v s) :
    Obeys R n (.setUp c id i args) s₀ (fun _ => Exec.modifyHeap (·.setField i f.key v)) s
      fun _ s' => (s₀.heap.instance? i).isSome → (s'.heap.field? i f.key).isSome := by
  refine .inside fun hs => modifyHeap (P := fun s' => _ → (s'.heap.field? i f.key).isSome)
    (.fieldSetUp hcls hf hv) fun hi => ?_
  exact isSome_field?_setField (R.instance_of_inside hs hi) f.key v

lemma setUpAsParent {p : ClassId} (hp : cls.parent = some p) {values : List Value}
    (hvalues : ∀ v ∈ values, R.Sound v s) :
    Obeys R n (.setUp c id i args) s₀ (fun ev => ev.setUp c p i values) s
      fun _ s' => (s₀.heap.instance? i).isSome → ∀ q, some p = some q → s'.SetUpAs i q := by
  refine .inside fun hs => Agrees.weaken (.ask (.parent hcls hp hvalues)) fun _ s' _ h hi q hq => ?_
  cases hq
  exact h (R.instance_of_inside hs hi)

/-- With its fields and those of the class above, the instance is set up. -/
lemma setUpAs_of_fields {s' : State} (hs : R.Inside n (.setUp c id i args) s₀ s')
    (hfields : ∀ f ∈ cls.instanceFields, (s'.heap.field? i f.key).isSome)
    (hparent : ∀ p, cls.parent = some p → s'.SetUpAs i p) : s'.SetUpAs i id := by
  obtain ⟨cls', hcls', hrevised⟩ := R.class_of_inside hs hcls
  refine .intro hcls' ?_ ?_
  · rw [hrevised.instanceFields]
    exact hfields
  · rw [hrevised.parent]
    exact hparent

lemma constructHost {constructor : Option HostFunction} (horigin : cls.origin = .host constructor) :
    Obeys R n (.setUp c id i args) s₀ (fun ev => ev.constructHost c cls constructor i args) s
      fun _ s' => (s₀.heap.instance? i).isSome →
        ∀ f ∈ cls.instanceFields, (s'.heap.field? i f.key).isSome := by
  refine .bind (.forM (P := fun f s' => (s₀.heap.instance? i).isSome → (s'.heap.field? i f.key).isSome)
    _ (fun f hf s' _ => setUpField hcls hf (v := .null) (Bounds.sound_of_ne nofun))
    fun f _ _ hkept h hi => (R.grows_of_kept hkept).field (h hi)) fun _ s' _ hfields => ?_
  have hkeep : ∀ s'', R.Kept s' s'' → (s₀.heap.instance? i).isSome →
      ∀ f ∈ cls.instanceFields, (s''.heap.field? i f.key).isSome :=
    fun s'' hkept hi f hf => (R.grows_of_kept hkept).field (hfields f hf hi)
  cases constructor with
  | some f =>
    refine .inside fun hs => ?_
    have hargs : ∀ v ∈ args, R.Sound v s' := fun v hv => R.sound_of_mem_values hs hv
    refine .bind (.ask (.hostConstructor hcls horigin hargs)) fun _ s'' hkept _ => .pure ?_
    exact hkeep s'' hkept
  | none => exact (refuseArguments cls args).weaken fun _ s'' hkept _ => hkeep s'' hkept

lemma setUpHost {constructor : Option HostFunction} (horigin : cls.origin = .host constructor) :
    Obeys R n (.setUp c id i args) s₀ (fun ev => ev.setUpHost c cls constructor i args) s
      fun _ s' => (s₀.heap.instance? i).isSome → s'.SetUpAs i id := by
  have hfinish : ∀ s', ((s₀.heap.instance? i).isSome → ∀ p, cls.parent = some p → s'.SetUpAs i p) →
      Obeys R n (.setUp c id i args) s₀ (fun ev => ev.constructHost c cls constructor i args) s'
        fun _ s'' => (s₀.heap.instance? i).isSome → s''.SetUpAs i id := by
    refine fun s' hparent => .inside fun hs => ?_
    refine (constructHost hcls horigin).weaken fun _ s'' hkept hfields hi => ?_
    refine setUpAs_of_fields hcls (R.inside_of_kept hs hkept) (hfields hi) fun p hp => ?_
    exact (hparent hi p hp).mono (R.grows_of_kept hkept)
  unfold Evaluator.setUpHost
  cases hparent : cls.parent with
  | none => exact hfinish s fun _ p hp => by simp [hparent] at hp
  | some p =>
    rw [hparent] at hfinish
    exact .bind (setUpAsParent hcls hparent (by simp)) fun _ s' _ h => hfinish s' h

section Script

variable {closure : Context} {constructor : Option FunctionDecl}
  (horigin : cls.origin = .script closure constructor)

include horigin

lemma bindConstructor (hargs : ∀ v ∈ args, R.Sound v s) :
    Obeys R n (.setUp c id i args) s₀
      (fun ev => ev.bindConstructor (.method ⟨s₀.scopes.size⟩ closure id (some (.instanceRef i))) cls
        constructor args) s fun body _ => body = (constructor.map (·.body)).getD [] := by
  cases constructor with
  | none => exact .bind (refuseArguments cls args) fun _ _ _ _ => .pure rfl
  | some decl =>
    refine .bind (bindParameters rfl rfl decl (fun p hp e he => ?_) hargs) fun _ _ _ _ => .pure rfl
    refine .opening hcls horigin (List.mem_append_left _ ?_)
    rw [horigin]
    exact List.mem_append_left _ (List.mem_filterMap.mpr ⟨p, hp, he⟩)

/-- The arguments for the class above are computed in the context of the constructor. -/
lemma superArguments {arguments : List Expr} {place : Position}
    (hsplit : (Evaluator.splitSuperCall ((constructor.map (·.body)).getD [])).1 =
      some (arguments, place)) :
    Obeys R n (.setUp c id i args) s₀
      (fun ev => ev.evaluateAll (.method ⟨s₀.scopes.size⟩ closure id (some (.instanceRef i))) arguments) s
      fun vs s' => ∀ v ∈ vs, R.Sound v s' := by
  refine evaluateAll fun e he => .opening hcls horigin (List.mem_append_left _ ?_)
  rw [horigin]
  cases constructor with
  | none => cases hsplit
  | some decl =>
    refine List.mem_append_right _ ?_
    have hbody : (Evaluator.splitSuperCall decl.body).1 = some (arguments, place) := hsplit
    simpa [hbody] using he

lemma setUpParent :
    Obeys R n (.setUp c id i args) s₀
      (fun ev => ev.setUpParent c (.method ⟨s₀.scopes.size⟩ closure id (some (.instanceRef i))) cls i
        (Evaluator.splitSuperCall ((constructor.map (·.body)).getD [])).1) s
      fun _ s' => (s₀.heap.instance? i).isSome → ∀ p, cls.parent = some p → s'.SetUpAs i p := by
  cases hsplit : (Evaluator.splitSuperCall ((constructor.map (·.body)).getD [])).1 with
  | none =>
    unfold Evaluator.setUpParent
    cases hparent : cls.parent with
    | none => exact .pure fun _ p hp => by cases hp
    | some p => exact setUpAsParent hcls hparent (by simp)
  | some superCall =>
    obtain ⟨arguments, place⟩ := superCall
    unfold Evaluator.setUpParent
    cases hparent : cls.parent with
    | none => exact .located .fail
    | some p =>
      refine .bind (.located (superArguments hcls horigin hsplit)) fun values _ _ hvalues => ?_
      exact .located (setUpAsParent hcls hparent hvalues)

lemma setUpFields :
    Obeys R n (.setUp c id i args) s₀
      (fun ev => ev.setUpFields (.method ⟨s₀.scopes.size⟩ closure id (some (.instanceRef i))) i
        cls.instanceFields) s
      fun _ s' => (s₀.heap.instance? i).isSome →
        ∀ f ∈ cls.instanceFields, (s'.heap.field? i f.key).isSome := by
  refine Agrees.weaken (.forM
    (P := fun (f : Field) s' => (s₀.heap.instance? i).isSome → (s'.heap.field? i f.key).isSome)
    _ (fun f hf s' _ => ?_) fun f _ _ hkept h hi => (R.grows_of_kept hkept).field (h hi))
    fun _ s' _ h hi f hf => h f hf hi
  cases hinitializer : f.initializer with
  | none =>
    exact .bind (P := R.Sound) (.pure (Bounds.sound_of_ne nofun)) fun v _ _ hv =>
      setUpField hcls hf hv
  | some e =>
    have he : e ∈ cls.opening := List.mem_append_right _ (List.mem_filterMap.mpr ⟨f, hf, hinitializer⟩)
    exact .bind (evaluate (.opening hcls horigin he)) fun v _ _ hv => setUpField hcls hf hv

/-- The rest of the constructor runs in a block of its own. -/
lemma runRest :
    Obeys R n (.setUp c id i args) s₀ (fun ev => ev.runBody
      (.method ⟨s₀.scopes.size⟩ closure id (some (.instanceRef i)))
      (Evaluator.splitSuperCall ((constructor.map (·.body)).getD [])).2) s R.Ends := by
  refine .inside fun hs => .bind (newBlock .plain) fun block _ _ hblock => ?_
  obtain ⟨rfl, rfl⟩ := hblock
  exact .ask (.constructor hcls horigin (splitSuperCall_suffix _) (R.scopes_of_inside hs))

lemma constructIn :
    Obeys R n (.setUp c id i args) s₀
      (fun ev => ev.constructIn c (.method ⟨s₀.scopes.size⟩ closure id (some (.instanceRef i))) cls
        constructor i args) s
      fun _ s' => (s₀.heap.instance? i).isSome → s'.SetUpAs i id := by
  refine .inside fun hs => ?_
  have hargs : ∀ v ∈ args, R.Sound v s := fun v hv => R.sound_of_mem_values hs hv
  refine .bind (bindConstructor hcls horigin hargs) fun body _ _ hbody => ?_
  subst hbody
  refine .bind (setUpParent hcls horigin) fun _ s₁ _ hparent => ?_
  refine .bind (setUpFields hcls horigin) fun _ s₂ hkept₂ hfields => .inside fun hs₂ => ?_
  -- All fields are there before the rest of the constructor runs.
  have hdone : ∀ s', R.Kept s₂ s' → (s₀.heap.instance? i).isSome → s'.SetUpAs i id := by
    intro s' hkept hi
    refine (setUpAs_of_fields hcls hs₂ (hfields hi) fun p hp => ?_).mono (R.grows_of_kept hkept)
    exact (hparent hi p hp).mono (R.grows_of_kept hkept₂)
  refine .bind (runRest hcls horigin) fun flow s₃ hkept₃ _ => ?_
  cases flow with
  | jumps label => exact .fail
  | next | breaks | continues | returns => exact .pure (hdone s₃ hkept₃)

end Script

lemma setUpAs :
    Obeys R n (.setUp c id i args) s₀ (fun ev => ev.setUpAs c id cls i args) s₀.entered
      fun _ s' => (s₀.heap.instance? i).isSome → s'.SetUpAs i id := by
  unfold Evaluator.setUpAs
  cases horigin : cls.origin with
  | host constructor => exact setUpHost hcls horigin
  | script closure constructor =>
    refine .bind (newMethodContext id (some (.instanceRef i))) fun context _ _ hcontext => ?_
    subst hcontext
    exact constructIn hcls horigin

end SetUp

end Obeys

end ScriptLang
