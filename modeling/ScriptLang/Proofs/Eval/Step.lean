/-
What one step of the evaluator does, and what follows for the parts of a run.

With a task in a state the evaluator does a composed computation, either at once or as a call
(`Task.Step`).  This is the only thing that the proofs about whole runs know of the steps.  It follows
that

* the evaluators of the language keep every realm (`Evaluator.within_keeps`);
* a part of a run stands in a state that keeps the realm, except that it is as many calls deeper as
  there are on its trail, and its failure is one of the run unless a function of the host on the trail
  handles it (`Part.standing`);
* every failure comes from a part that raised it (`Part.failing`).
-/
import ScriptLang.Proofs.Eval.FlowSteps

namespace ScriptLang

variable {α : Type} {W : Realm} {L : Licence}

/-! ## One step -/

namespace Task

/-- Whether a task is a call of a function of the script, or one class of a construction. -/
def isCall : Task → Bool
  | .invoke _ _ _ => true
  | .setUp _ _ _ _ => true
  | _ => false

/-- Whether a task enters a call.  Setting up a class that is not registered does not. -/
def enters (t : Task) (s : State) : Bool :=
  match t with
  | .invoke _ _ _ => true
  | .setUp _ id _ _ => (s.registry.get? id).isSome
  | _ => false

/-- The places at which a task can locate a fault. -/
inductive Marks : Task → State → Position → Prop
  | expression (c : Context) (e : Expr) (s : State) : Marks (.evaluate c e) s e.place
  | target (c : Context) (e : Expr) (value : Value) (s : State) :
      Marks (.assign c e value) s e.place
  | statement (c : Context) (st : Stmt) (s : State) : Marks (.execute c st) s st.place
  /-- A name or a label of a list is declared there already. -/
  | declaration (c : Context) {body : List Stmt} {st : Stmt} (s : State) (h : st ∈ body) :
      Marks (.sequence c body) s st.place
  /-- A member of a class cannot be added, or it extends something else than a class. -/
  | inClassExpr (c : Context) {e : Expr} {p : Position} (s : State) (h : p ∈ e.form.places) :
      Marks (.evaluate c e) s p
  | inClassStmt (c : Context) {st : Stmt} {p : Position} (s : State) (h : p ∈ st.form.places) :
      Marks (.execute c st) s p
  /-- The call of `super` at the start of a constructor. -/
  | superCall (c : Context) {id : ClassId} (i : InstanceId) (args : List Value) {s : State}
      {cls : Class} {closure : Context} {decl : FunctionDecl} {st : Stmt}
      (hcls : s.registry.get? id = some cls) (horigin : cls.origin = .script closure (some decl))
      (hst : st ∈ decl.body.head?) (hcall : st.superCall?.isSome) :
      Marks (.setUp c id i args) s st.place

/-- The task is the call of a function of the host that can handle faults with the cause. -/
def Handles (t : Task) (cause : Cause) : Prop := ∃ f call, t = .host f call ∧ f.Handles cause

/-- What performing a task may lead to: only statements, calls and constructors run statements. -/
def licence (t : Task) (s : State) : Licence where
  tasks := fun t' => t'.isFlow → t.isFlow ∨ t.isCall
  places := t.Marks s
  faults := fun fault => ∃ f call, t = .host f call ∧ f.Raises fault
  handles := t.Handles

/-- What a step does with a task in a state. -/
inductive Step (W : Realm) (t : Task) (s : State) : Prop
  | plain (inner : Evaluator → Exec t.Answer) (hnot : t.isCall = false)
      (hinner : Composed W (t.licence s) inner fun _ => True)
      (hrun : ∀ ev : Evaluator, (ev.step t).run s = (inner ev).run s)
  | call (inner : Evaluator → Exec t.Answer) {s₀ : State} (henters : t.enters s = true)
      (hkept : W.Kept s s₀) (hinner : Composed W (t.licence s) inner fun _ => True)
      (hrun : ∀ ev : Evaluator, (ev.step t).run s = (Exec.asCall (inner ev)).run s₀)
  | refused {cause : Cause} (hnot : t.enters s = false) (hcause : cause.Ordinary)
      (hrun : ∀ ev : Evaluator, (ev.step t).run s = .error (.fault ⟨cause, none⟩) s)

lemma enters_of_not_isCall {t : Task} (h : t.isCall = false) (s : State) : t.enters s = false := by
  cases t with
  | invoke | setUp => cases h
  | _ => rfl

lemma isCall_of_enters {t : Task} {s : State} (h : t.enters s = true) : t.isCall = true := by
  cases t with
  | invoke | setUp => rfl
  | _ => cases h

/-- Every task is performed by one step. -/
theorem step (t : Task) {s : State} (hW : W.Allows t) (hs : W.Admits s) : t.Step W s := by
  have hvalues : (t.licence s).Evaluates := fun t' hflow h => by simp [hflow] at h
  cases t with
  | evaluate c e =>
    refine .plain _ rfl ?_ fun ev => rfl
    exact .located (.expression c e s)
      (.evaluateForm hvalues c e.form fun p hp => .inClassExpr c s hp)
  | assign c target value =>
    refine .plain _ rfl ?_ fun ev => rfl
    exact .located (.target c target value s) (.assignForm hvalues c value target.form)
  | execute c st =>
    refine .plain _ rfl ?_ fun ev => rfl
    exact .located (.statement c st s)
      (.executeForm (fun _ _ => .inl rfl) c st.form fun p hp => .inClassStmt c s hp)
  | sequence c body =>
    refine .plain _ rfl ?_ fun ev => rfl
    exact .runSequence (fun _ _ => .inl rfl) hW fun st hst => .declaration c s hst
  | call c callee args => exact .plain _ rfl (.callValue hvalues c callee args) fun ev => rfl
  | invoke frame decl args =>
    -- The context of the call is made before the call is counted.
    obtain ⟨c, hc, -, -⟩ := Exec.run_newContext frame s
    have hopened : W.Kept s s.opened := (Exec.held_newScope hs).1
    exact .call _ rfl hopened (.runIn (fun _ _ => .inr rfl) c decl args) fun ev => run_bind_ok hc
  | host f call =>
    refine .plain _ rfl (.callHost hvalues f call ?_ ?_) fun ev => rfl
    · exact fun fault h => ⟨f, call, rfl, h⟩
    · exact fun cause h => ⟨f, call, rfl, h⟩
  | getMember c v name => exact .plain _ rfl (.memberOf hvalues c v name) fun ev => rfl
  | setUp c id i args =>
    cases hc : s.registry.get? id with
    | none =>
      have hclass : (Exec.classOf id).run s =
          .error (.fault ⟨.notAClass ("class #" ++ toString id.index), none⟩) s := by
        simp only [Exec.classOf, EStateM.run_bind, EStateM.run_get, hc]
        rfl
      refine .refused (by simp [enters, hc]) ?_ fun ev => run_bind_error hclass
      trivial
    | some cls =>
      have hclass : (Exec.classOf id).run s = .ok cls s := by simp [Exec.classOf, hc]
      have hmeets := hs.meets.cls id cls hc
      refine .call _ (by simp [enters, hc]) (.refl hs) ?_ fun ev => run_bind_ok hclass
      unfold Evaluator.setUpAs
      cases ho : cls.origin with
      | host constructor =>
        have horigin := hmeets.origin
        rw [ho] at horigin
        exact .setUpHost hvalues c cls horigin i args
      | script closure constructor =>
        refine .setUpScript (fun _ _ => .inr rfl) c id cls closure constructor i args ?_
        rintro decl rfl st hst hcall
        exact .superCall c i args hc ho hst hcall

end Task

/-! ## Evaluators keep realms -/

namespace Realm

variable {s s' : State}

lemma Admits.entered (h : W.Admits s) : W.Admits s.entered :=
  ⟨⟨h.meets.function, h.meets.cls⟩, h.floor_le⟩

lemma Kept.entered (h : W.Kept s s') : W.Kept s.entered s'.entered :=
  ⟨h.admits.entered, h.config, congrArg (· + 1) h.depth, h.labelsOf⟩

/-- What was done one level deeper is kept when the level is left. -/
lemma Kept.left (h : W.Kept s.entered s') : W.Kept s s'.left where
  admits := ⟨⟨h.admits.meets.function, h.admits.meets.cls⟩, h.admits.floor_le⟩
  config := h.config
  depth := by
    have hdepth : s'.depth = s.depth + 1 := h.depth
    show s'.depth - 1 = s.depth
    omega
  labelsOf := h.labelsOf

end Realm

namespace Evaluator

/-- The evaluators of the language keep every realm. -/
theorem within_keeps (n : Nat) (W : Realm) : (within n).Keeps W := by
  induction n with
  | zero => exact fun t _ s hs => Realm.Kept.refl hs
  | succ n ih =>
    intro t hW s hs
    show W.Left _ s (((within n).step t).run s)
    cases t.step hW hs with
    | plain inner _ hinner hrun =>
      rw [hrun]
      exact hinner.left ih hs
    | @call inner s₀ _ hkept hinner hrun =>
      rw [hrun]
      by_cases hd : s₀.depth < s₀.config.maxCallDepth
      · have hleft := hinner.left ih hkept.admits.entered
        cases hr : (inner (within n)).run s₀.entered with
        | ok a s' =>
          rw [hr] at hleft
          rw [Exec.run_asCall_of_ok hd hr]
          exact ⟨hkept.trans hleft.1.left, trivial⟩
        | error e s' =>
          rw [hr] at hleft
          rw [Exec.run_asCall_of_error hd hr]
          exact hkept.trans (Realm.Kept.left hleft)
      · rw [Exec.run_asCall_of_le (Nat.not_lt.mp hd)]
        exact hkept
    | refused _ _ hrun =>
      rw [hrun]
      exact Realm.Kept.refl hs

end Evaluator

/-! ## Where a task leads, and how it fails -/

namespace Task

variable {n k : Nat} {t t' : Task} {s s' s₁ : State} {e : Halt}

/-- The state in which a task does its work. -/
def inside (t : Task) (s : State) : State := if t.enters s then s.entered else s

lemma inside_of_enters (h : t.enters s = true) : t.inside s = s.entered := if_pos h

lemma inside_of_not_isCall (h : t.isCall = false) : t.inside s = s :=
  if_neg (by simp [enters_of_not_isCall h])

@[simp]
lemma registry_inside : (t.inside s).registry = s.registry := by
  unfold inside
  split <;> rfl

@[simp]
lemma heap_inside : (t.inside s).heap = s.heap := by
  unfold inside
  split <;> rfl

@[simp]
lemma scopes_inside : (t.inside s).scopes = s.scopes := by
  unfold inside
  split <;> rfl

/-- What is known of a task `t'` to which `t` leads. -/
structure Leads (W : Realm) (k : Nat) (t : Task) (s : State) (t' : Task) (s' : State) : Prop where
  licensed : (t.licence s).tasks t'
  allowed : W.Allows t'
  kept : W.Kept (t.inside s) s'
  enters : t.enters s = t.isCall
  below : t.isCall → s.depth < s.config.maxCallDepth
  /-- A failure of `t'` that `t` does not handle is one of `t`. -/
  fails : ∀ e s₁, ((Evaluator.within k).perform t').run s' = .error e s₁ → (t.licence s).Misses e →
    ∃ e' s₂, ((Evaluator.within (k + 1)).perform t).run s = .error e' s₂ ∧
      (t.licence s).Passes e e'

theorem leads (hW : W.Allows t) (hs : W.Admits s)
    (ha : (Evaluator.within k).Asks (fun ev => ev.step t) s t' s') : t.Leads W k s t' s' := by
  cases t.step hW hs with
  | plain inner hnot hinner hrun =>
    have hasked := hinner.asked (Evaluator.within_keeps k W) hs (ha.congr_from hrun)
    have henters := enters_of_not_isCall hnot s
    refine ⟨hasked.licensed, hasked.allowed, ?_, by rw [henters, hnot], by simp [hnot], ?_⟩
    · simpa [inside, henters] using hasked.kept
    · intro e s₁ hfail hmiss
      obtain ⟨e', s₂, hr, hpass⟩ := hasked.fails e s₁ hfail hmiss
      exact ⟨e', s₂, (hrun _).trans hr, hpass⟩
  | @call inner s₀ henters hkept hinner hrun =>
    obtain ⟨hd, hask⟩ := Evaluator.asks_asCall (ha.congr_from hrun)
    have hasked := hinner.asked (Evaluator.within_keeps k W) hkept.admits.entered hask
    refine ⟨hasked.licensed, hasked.allowed, ?_, ?_, fun _ => ?_, ?_⟩
    · simpa [inside, henters] using hkept.entered.trans hasked.kept
    · rw [henters, isCall_of_enters henters]
    · rwa [hkept.depth, hkept.config] at hd
    · intro e s₁ hfail hmiss
      obtain ⟨e', s₂, hr, hpass⟩ := hasked.fails e s₁ hfail hmiss
      exact ⟨e', s₂.left, (hrun _).trans (Exec.run_asCall_of_error hd hr), hpass⟩
  | refused _ _ hrun =>
    obtain ⟨other, -, hne⟩ := ha
    exact absurd ((hrun other).trans (hrun _).symm) hne

/-- Why a task fails: it raises a failure itself, it would be one call too many, or it leads to a task
that fails. -/
inductive Failing (W : Realm) (k : Nat) (t : Task) (s : State) (e : Halt) : Prop
  | raised {e₀} : (t.licence s).Raises e₀ → (t.licence s).Passes e₀ e → Failing W k t s e
  | overflow : t.enters s = true → s.config.maxCallDepth ≤ s.depth →
      e = .fault ⟨.stackOverflow s.config.maxCallDepth, none⟩ → Failing W k t s e
  | answer {t' s' e₀ s₁} : (Evaluator.within k).Asks (fun ev => ev.step t) s t' s' →
      ((Evaluator.within k).perform t').run s' = .error e₀ s₁ →
      (t.licence s).Passes e₀ e → Failing W k t s e

theorem failing (hW : W.Allows t) (hs : W.Admits s)
    (hr : ((Evaluator.within (k + 1)).perform t).run s = .error e s₁) : t.Failing W k s e := by
  change ((Evaluator.within k).step t).run s = .error e s₁ at hr
  have hkeeps := Evaluator.within_keeps k W
  cases t.step hW hs with
  | plain inner hnot hinner hrun =>
    cases hinner.origin hkeeps hs ((hrun _).symm.trans hr) with
    | raised hraise hpass => exact .raised hraise hpass
    | answer ha hans hpass => exact .answer (ha.congr_from fun ev => (hrun ev).symm) hans hpass
  | @call inner s₀ henters hkept hinner hrun =>
    rw [hrun] at hr
    by_cases hd : s₀.depth < s₀.config.maxCallDepth
    · cases hinside : (inner (Evaluator.within k)).run s₀.entered with
      | ok a s₂ =>
        rw [Exec.run_asCall_of_ok hd hinside] at hr
        cases hr
      | error e' s₂ =>
        rw [Exec.run_asCall_of_error hd hinside] at hr
        cases hr
        cases hinner.origin hkeeps hkept.admits.entered hinside with
        | raised hraise hpass => exact .raised hraise hpass
        | answer ha hans hpass =>
          refine .answer (Evaluator.Asks.congr_from ?_ fun ev => (hrun ev).symm) hans hpass
          exact hinner.asks_asCall hkeeps hkept.admits.entered hd ha
    · have hle := Nat.not_lt.mp hd
      rw [Exec.run_asCall_of_le hle, hkept.config] at hr
      rw [hkept.depth, hkept.config] at hle
      cases hr
      exact .overflow henters hle rfl
  | refused _ hcause hrun =>
    rw [hrun] at hr
    cases hr
    exact .raised (.raw (.ordinary hcause)) (.refl _ _)

lemma config_inside (t : Task) (s : State) : (t.inside s).config = s.config := by
  unfold inside
  split <;> rfl

lemma labelsOf_inside (t : Task) (s : State) (index : Nat) :
    (t.inside s).labelsOf index = s.labelsOf index := by
  unfold inside
  split <;> rfl

lemma depth_inside (t : Task) (s : State) :
    (t.inside s).depth = s.depth + if t.enters s then 1 else 0 := by
  unfold inside
  split <;> rfl

end Task

/-! ## The parts of a run -/

namespace Halt

/-- What can become of a failure on its way out: the cause stays, and so does a place. -/
structure Becomes (e e' : Halt) : Prop where
  cause : e'.cause? = e.cause?
  eq_of_settled : e.Settled → e' = e

variable {e e' e'' : Halt}

lemma Becomes.trans (h : e.Becomes e') (h' : e'.Becomes e'') : e.Becomes e'' where
  cause := h'.cause.trans h.cause
  eq_of_settled := fun hset => by
    have heq := h.eq_of_settled hset
    subst heq
    exact h'.eq_of_settled hset

end Halt

lemma Licence.Passes.becomes {e e' : Halt} (h : L.Passes e e') : e.Becomes e' where
  cause := h.cause
  eq_of_settled := h.eq_of_settled

namespace Part

variable {n k : Nat} {m : Evaluator → Exec α} {Q : α → Prop} {trail : List Task} {t : Task}
  {s s' s₁ : State} {e : Halt}

/-- How a part stands in its run. -/
structure Standing (W : Realm) (L : Licence) (n : Nat) (m : Evaluator → Exec α) (s : State)
    (trail : List Task) (k : Nat) (t : Task) (s' : State) : Prop where
  allowed : W.Allows t
  allowedAbove : ∀ t' ∈ trail, W.Allows t'
  admits : W.Admits s'
  config : s'.config = s.config
  depth : s'.depth = s.depth + trail.countP Task.isCall
  depth_le : s.depth ≤ s.config.maxCallDepth → s'.depth ≤ s.config.maxCallDepth
  labelsOf : ∀ index < W.floor, s'.labelsOf index = s.labelsOf index
  /-- Its failure is one of the run, unless it is handled on the way. -/
  fails : ∀ e s₁, ((Evaluator.within k).perform t).run s' = .error e s₁ → L.Misses e →
    (∀ t' ∈ trail, ∀ cause ∈ e.cause?, ¬t'.Handles cause) →
    ∃ e' s₂, (m (Evaluator.within n)).run s = .error e' s₂ ∧ e.Becomes e'

/-- Every part of a run of a composed computation stands in it. -/
theorem standing (hm : Composed W L m Q) (hs : W.Admits s) (hpart : Part n m s trail k t s') :
    Standing W L n m s trail k t s' := by
  induction hpart with
  | asked ha =>
    have hasked := hm.asked (Evaluator.within_keeps n W) hs ha
    have hkept := hasked.kept
    refine ⟨hasked.allowed, List.forall_mem_nil _, hkept.admits, hkept.config, hkept.depth, ?_,
      hkept.labelsOf, ?_⟩
    · exact fun hle => hkept.depth ▸ hle
    · intro e s₁ hfail hmiss _
      obtain ⟨e', s₂, hr, hpass⟩ := hasked.fails e s₁ hfail hmiss
      exact ⟨e', s₂, hr, hpass.becomes⟩
  | @inner trail k t s' t' s'' _ ha ih =>
    have hleads := Task.leads ih.allowed ih.admits ha
    have hkept := hleads.kept
    have hdepth : s''.depth = s'.depth + if t.isCall then 1 else 0 := by
      rw [hkept.depth, t.depth_inside, hleads.enters]
    refine ⟨hleads.allowed, List.forall_mem_cons.mpr ⟨ih.allowed, ih.allowedAbove⟩, hkept.admits,
      ?_, ?_, ?_, ?_, ?_⟩
    · rw [hkept.config, t.config_inside, ih.config]
    · rw [hdepth, ih.depth, List.countP_cons, Nat.add_assoc]
    · intro hle
      have hbelow := ih.depth_le hle
      cases hcall : t.isCall with
      | false => simpa [hdepth, hcall] using hbelow
      | true =>
        have hlt := hleads.below hcall
        rw [ih.config] at hlt
        simp only [hdepth, hcall, if_true]
        exact hlt
    · intro index hi
      rw [hkept.labelsOf index hi, t.labelsOf_inside, ih.labelsOf index hi]
    · intro e s₁ hfail hmiss htrail
      obtain ⟨e', s₂, hr, hpass⟩ := hleads.fails e s₁ hfail (htrail t List.mem_cons_self)
      obtain ⟨e'', s₃, hrun, hbecomes⟩ := ih.fails e' s₂ hr
        (fun cause hcause => hmiss cause (hpass.cause ▸ hcause))
        fun t' ht' cause hcause => htrail t' (List.mem_cons_of_mem t ht') cause (hpass.cause ▸ hcause)
      exact ⟨e'', s₃, hrun, hpass.becomes.trans hbecomes⟩

/-- In a realm whose functions of the host hand on all faults, the failure of a part is one of the run. -/
lemma Standing.fails_of_relays (h : Standing W L n m s trail k t s')
    (hrelays : ∀ f, W.host f → f.Relays) (hL : L.Misses e)
    (hr : ((Evaluator.within k).perform t).run s' = .error e s₁) :
    ∃ e' s₂, (m (Evaluator.within n)).run s = .error e' s₂ ∧ e.Becomes e' := by
  refine h.fails e s₁ hr hL ?_
  rintro t' ht' cause - ⟨f, call, rfl, hhandles⟩
  exact hrelays f (h.allowedAbove _ ht') cause hhandles

/-- What holds of the failures that the parts of a run raise, and is not lost when a part passes a
failure on, holds of all failures of parts. -/
theorem failing (hm : Composed W L m Q) (hs : W.Admits s) {P : Halt → Prop}
    (hexhausted : P .exhausted)
    (hraised : ∀ {trail k t s' e}, Part n m s trail k t s' → W.Allows t →
      (t.licence s').Raises e → P e)
    (hoverflow : ∀ {trail k t s'}, Part n m s trail (k + 1) t s' → t.enters s' = true →
      s'.config.maxCallDepth ≤ s'.depth →
      P (.fault ⟨.stackOverflow s'.config.maxCallDepth, none⟩))
    (hpasses : ∀ {trail k t s' e e' s₁}, Part n m s trail k t s' →
      ((Evaluator.within k).perform t).run s' = .error e' s₁ → P e →
      (t.licence s').Passes e e' → P e')
    (hpart : Part n m s trail k t s')
    (hr : ((Evaluator.within k).perform t).run s' = .error e s₁) : P e := by
  induction k generalizing trail t s' e s₁ with
  | zero =>
    cases hr
    exact hexhausted
  | succ k ih =>
    have hstand := hpart.standing hm hs
    cases Task.failing hstand.allowed hstand.admits hr with
    | raised hraise hpass => exact hpasses hpart hr (hraised hpart hstand.allowed hraise) hpass
    | overflow henters hle he =>
      subst he
      exact hoverflow hpart henters hle
    | answer ha hans hpass => exact hpasses hpart hr (ih (hpart.inner ha) hans) hpass

end Part

/-! ## What a host can ask for -/

/-- What a host can have an interpreter do. -/
inductive Entry : {α : Type} → (Evaluator → Exec α) → Prop
  | evaluate (c : Context) (e : Expr) : Entry fun ev => ev.evaluate c e
  | assign (c : Context) (target : Expr) (value : Value) : Entry fun ev => ev.assign c target value
  | execute (c : Context) (st : Stmt) : Entry fun ev => ev.execute c st
  | sequence (c : Context) (body : List Stmt) : Entry fun ev => ev.sequence c body
  | call (c : Context) (callee : Value) (args : List Value) : Entry fun ev => ev.call c callee args
  | construct (c : Context) (id : ClassId) (args : List Value) :
      Entry fun ev => ev.construct c id args
  | run (body : List Stmt) : Entry fun ev => Interpreter.run ev body
  | callGlobal (name : String) (args : List Value) :
      Entry fun ev => Interpreter.callGlobal ev name args

/-- A licence for everything but failing as the host and handling failures. -/
def Licence.full : Licence where
  tasks := fun _ => True
  places := fun _ => True
  faults := fun _ => False
  handles := fun _ => False

lemma Licence.misses_full (e : Halt) : Licence.full.Misses e := fun _ _ h => h

/-- A part that fails lets the run fail in the same way, unless a function of the host on the way handles
this. -/
lemma Part.fails_or_handled {n k : Nat} {m : Evaluator → Exec α} {Q : α → Prop} {trail : List Task}
    {t : Task} {s s' s₁ : State} {fault : Fault} (hm : Composed W Licence.full m Q) (hs : W.Admits s)
    (hpart : Part n m s trail k t s')
    (hr : ((Evaluator.within k).perform t).run s' = .error (.fault fault) s₁) :
    (∃ e s₂, (m (Evaluator.within n)).run s = .error e s₂ ∧ (Halt.fault fault).Becomes e) ∨
      ∃ f call, .host f call ∈ trail ∧ f.Handles fault.cause := by
  by_cases hhandled : ∃ f call, .host f call ∈ trail ∧ f.Handles fault.cause
  · exact .inr hhandled
  · refine .inl ((hpart.standing hm hs).fails _ _ hr (Licence.misses_full _) ?_)
    rintro t' ht' cause ⟨⟩ ⟨f, call, rfl, hhandles⟩
    exact hhandled ⟨f, call, ht', hhandles⟩

/-- Whatever a host can ask for is composed, as long as labels may be declared everywhere. -/
lemma Entry.composed {m : Evaluator → Exec α} (hm : Entry m) (hfloor : W.floor = 0) :
    Composed W Licence.full m fun _ => True := by
  have hvalues : Licence.full.Evaluates := fun _ _ => trivial
  have hall : ∀ t, Licence.full.tasks t := fun _ => trivial
  cases hm with
  | evaluate c e => exact .evaluate hvalues c e
  | assign c target value => exact .assign hvalues c target value
  | execute c st => exact .execute hall c st
  | sequence c body => exact .sequence hall (hfloor ▸ Nat.zero_le _) body
  | call c callee args => exact .call hvalues c callee args
  | construct c id args => exact .construct hvalues c id args
  | run body =>
    refine .bind (.sequence hall (hfloor ▸ Nat.zero_le _) body) fun flow _ => ?_
    cases flow with
    | jumps label => exact .fail trivial
    | next | breaks | continues | returns => exact .pure trivial
  | callGlobal name args =>
    exact .bind (.lookup _ name) fun f _ => .callValue hvalues _ f args

end ScriptLang
