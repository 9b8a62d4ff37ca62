/-
What a host can do with an interpreter.

A host starts an interpreter, gives it functions, classes and variables, asks it to run scripts, and may
cancel it.  `Interpreter.Reached` are the states that it can bring about.  What a host hands in is subject
to terms (`Terms`): which functions of its own it uses, and to which classes its values may refer.

A property of states holds of all of them if it holds of a new interpreter and is kept by each of the
operations (`Interpreter.Reached.holds`).  For the runs among them it is enough that a regime serves the
host (`Regime.Serves`).
-/
import ScriptLang.Proofs.Eval.Runs
import ScriptLang.Proofs.Eval.Surface

namespace ScriptLang

/-! ## Terms for a host -/

/-- What a host may hand in. -/
structure Terms where
  /-- The functions of the host that it may use. -/
  host : HostFunction → Prop
  /-- The classes to which its values may refer. -/
  knows : Registry → ClassId → Prop

/-- A value that a host may hand in. -/
def Terms.Allows (T : Terms) (s : State) (v : Value) : Prop :=
  ∀ id, v = .classRef id → T.knows s.registry id

/-- The functions of the host in a description of a class satisfy `P`. -/
structure HostClass.Meets (P : HostFunction → Prop) (h : HostClass) : Prop where
  constructor : ∀ f ∈ h.constructor, P f
  member : ∀ entry ∈ h.members, entry.2.2.Meets P

/-- What holds of a class without members and is kept by every member, which is then done, holds of the
whole class when all members are done. -/
lemma HostClass.toClass_visits {h : HostClass} {cls : Class}
    {P : List (Side × String × Member) → Class → Prop} (hcls : h.toClass = .ok cls)
    (hstart : P [] ⟨h.name, h.parent, .host h.constructor, {}, {}, h.fields.map (⟨·, none⟩),
      .ofList h.staticFields⟩)
    (hadd : ∀ done, ∀ entry ∈ h.members, ∀ c, P done c →
      P (done ++ [entry]) (c.addMember entry.1 entry.2.1 entry.2.2)) : P h.members cls := by
  have hfold : ∀ (ms done : List (Side × String × Member)) (c : Class), (∀ m ∈ ms, m ∈ h.members) →
      P done c → ms.foldlM (fun c m => HostClass.addMember c m.1 m.2.1 m.2.2) c = .ok cls →
        P (done ++ ms) cls := by
    intro ms
    induction ms with
    | nil =>
      intro done c _ hc hrest
      cases hrest
      simpa using hc
    | cons m ms ih =>
      intro done c hms hc hrest
      obtain ⟨c', hc', hrest⟩ := Draft.exists_ok_of_bind hrest
      have hm : P (done ++ [m]) c' := by
        simp only [HostClass.addMember] at hc'
        split at hc'
        · cases hc'
        · cases hc'
          exact hadd done m (hms m List.mem_cons_self) c hc
      simpa using ih (done ++ [m]) c' (fun m' hm' => hms m' (List.mem_cons_of_mem m hm')) hm hrest
  simpa using hfold h.members [] _ (fun _ => id) hstart hcls

/-- What holds of a class without members and is kept by each member holds of the whole class. -/
lemma HostClass.toClass_induct {h : HostClass} {cls : Class} {P : Class → Prop}
    (hcls : h.toClass = .ok cls)
    (hstart : P ⟨h.name, h.parent, .host h.constructor, {}, {}, h.fields.map (⟨·, none⟩),
      .ofList h.staticFields⟩)
    (hadd : ∀ entry ∈ h.members, ∀ c, P c → P (c.addMember entry.1 entry.2.1 entry.2.2)) : P cls :=
  toClass_visits (P := fun _ => P) hcls hstart fun _ => hadd

lemma HostClass.Meets.imp {P Q : HostFunction → Prop} {h : HostClass} (hh : h.Meets P)
    (hPQ : ∀ f, P f → Q f) : h.Meets Q :=
  ⟨fun f hf => hPQ f (hh.constructor f hf), fun entry he =>
    (hh.member entry he).imp₂ (fun f hf _ => hPQ f hf) (hh.member entry he)⟩

lemma HostClass.Meets.toClass {P : HostFunction → Prop} {h : HostClass} {cls : Class} (hh : h.Meets P)
    (hcls : h.toClass = .ok cls) : cls.Meets P := by
  refine toClass_induct hcls ⟨hh.constructor, fun side => ?_⟩ fun entry he c hc => ?_
  · cases side <;> exact fun _ _ hm => by cases hm
  · exact hc.addMember (hh.member entry he)

namespace Interpreter

variable {α : Type} {T : Terms} {s : State} {n : Nat}

/-- What a host may ask for. -/
inductive Request (T : Terms) (s : State) : {α : Type} → (Evaluator → Exec α) → Prop
  | run (body : List Stmt) : Request T s fun ev => run ev body
  | evaluate (e : Expr) : Request T s fun ev => ev.evaluate root e
  | call {f args} : T.Allows s f → (∀ v ∈ args, T.Allows s v) →
      Request T s fun ev => ev.call root f args
  | callGlobal {args} (name : String) : (∀ v ∈ args, T.Allows s v) →
      Request T s fun ev => callGlobal ev name args
  | construct {id args} : T.knows s.registry id → (∀ v ∈ args, T.Allows s v) →
      Request T s fun ev => ev.construct root id args

/-- What a host can do between two states of an interpreter. -/
inductive Operation (T : Terms) : State → State → Prop
  | defineFunction {s f} : T.host f → Operation T s ((defineFunction f).after s)
  | defineClass {s : State} {h : HostClass} : h.Meets T.host →
      (∀ entry ∈ h.staticFields, T.Allows s entry.2) → Operation T s ((defineClass h).after s)
  | setGlobal {s v} (name : String) : T.Allows s v → Operation T s ((setGlobal name v).after s)
  | cancel {s : State} : Operation T s { s with cancelled := true }
  | request {s : State} {β : Type} {m : Evaluator → Exec β} (bound : Nat) : Request T s m →
      Operation T s ((m (Evaluator.within bound)).after s)

/-- The states that a host can bring about from a given one. -/
abbrev Later (T : Terms) : State → State → Prop := Relation.ReflTransGen (Operation T)

/-- The states that a host can bring about.  What its operators bring in is subject to the terms, too. -/
def Reached (T : Terms) (s : State) : Prop :=
  ∃ config services s₀, (∀ id, services.operators.Brings id → T.knows {} id) ∧
    start config services = .ok s₀ ∧ Later T s₀ s

/-- A host that keeps to the usual services starts within all terms. -/
lemma Reached.of_start {config : Config} (h : start config {} = .ok s) : Reached T s :=
  ⟨config, {}, s, fun id hid => absurd hid (OperatorTable.not_brings_standard id), h, .refl⟩

lemma Reached.operation {s' : State} (h : Reached T s) (ho : Operation T s s') : Reached T s' := by
  obtain ⟨config, services, s₀, hoperators, hstart, hlater⟩ := h
  exact ⟨config, services, s₀, hoperators, hstart, hlater.tail ho⟩

/-! ## Properties of the states that are reached -/

/-- A property that is kept when a host hands in functions, classes of some kind and variables. -/
structure Prepares (T : Terms) (C : HostClass → Prop) (P : State → Prop) : Prop where
  registered : ∀ {r id cls}, r.get? id = some cls → T.knows r id
  declared : ∀ {s name kind v}, P s → T.Allows s v →
    P (s.withScope root.scope ((s.scopeAt root.scope).declare name kind v))
  function : ∀ {s f}, P s → T.host f → P (s.withHeap (s.heap.addFunction (.host f)).2)
  cls : ∀ {s} {h : HostClass} {cls}, P s → C h →
    (∀ entry ∈ h.staticFields, T.Allows s entry.2) →
    (∀ p ∈ h.parent, (s.registry.get? p).isSome) → h.toClass = .ok cls →
    P (s.withRegistry (s.registry.insert cls).2)

/-- A property that each operation of a host keeps. -/
structure Upheld (T : Terms) (P : State → Prop) : Prop where
  registered : ∀ {r id cls}, r.get? id = some cls → T.knows r id
  declared : ∀ {s name kind v}, P s → T.Allows s v →
    P (s.withScope root.scope ((s.scopeAt root.scope).declare name kind v))
  function : ∀ {s f}, P s → T.host f → P (s.withHeap (s.heap.addFunction (.host f)).2)
  cls : ∀ {s} {h : HostClass} {cls}, P s → h.Meets T.host →
    (∀ entry ∈ h.staticFields, T.Allows s entry.2) →
    (∀ p ∈ h.parent, (s.registry.get? p).isSome) → h.toClass = .ok cls →
    P (s.withRegistry (s.registry.insert cls).2)
  cancel : ∀ {s}, P s → P { s with cancelled := true }
  request : ∀ {s} {β : Type} {m : Evaluator → Exec β} (bound : Nat), P s → Request T s m →
    P ((m (Evaluator.within bound)).after s)

/-- A class of the host is registered, or nothing happens. -/
lemma run_register (h : HostClass) (s : State) :
    (∃ f, h.register.run s = .error (.fault f) s) ∨
      ∃ cls, h.toClass = .ok cls ∧ (∀ p ∈ h.parent, (s.registry.get? p).isSome) ∧
        h.register.run s = .ok ⟨s.registry.size⟩ (s.withRegistry (s.registry.insert cls).2) := by
  unfold HostClass.register
  cases hclass : h.toClass with
  | error cause =>
    refine .inl ?_
    cases hparent : h.parent with
    | none => exact ⟨_, rfl⟩
    | some p =>
      cases hp : s.registry.get? p with
      | none => exact ⟨_, run_bind_error (Exec.run_classOf_none hp)⟩
      | some cls => exact ⟨⟨cause, none⟩, run_bind_ok (Exec.run_classOf hp)⟩
  | ok cls =>
    cases hparent : h.parent with
    | none => exact .inr ⟨cls, rfl, by simp, rfl⟩
    | some p =>
      cases hp : s.registry.get? p with
      | none => exact .inl ⟨_, run_bind_error (Exec.run_classOf_none hp)⟩
      | some cls' =>
        refine .inr ⟨cls, rfl, ?_, run_bind_ok (Exec.run_classOf hp)⟩
        rintro _ ⟨⟩
        simp [hp]

namespace Prepares

variable {C : HostClass → Prop} {P : State → Prop} (hP : Prepares T C P)

include hP

lemma declare (name : String) (kind : BindingKind) {v : Value} (hs : P s) (hv : T.Allows s v) :
    P ((Exec.declare root name kind v).after s) := by
  have hrun := Exec.run_declare root s name kind v
  split at hrun
  · rw [Exec.after_of_error hrun]
    exact hs
  · rw [Exec.after_of_ok hrun]
    exact hP.declared hs hv

lemma defineFunction {f : HostFunction} (hs : P s) (hf : T.host f) :
    P ((defineFunction f).after s) := by
  have hnew : (Exec.newFunction (.host f)).run s = .ok (.function ⟨s.heap.functions.size⟩)
      (s.withHeap (s.heap.addFunction (.host f)).2) := rfl
  unfold Interpreter.defineFunction
  rw [Exec.after_bind_of_ok hnew]
  exact hP.declare _ _ (hP.function hs hf) nofun

lemma defineClass {h : HostClass} (hs : P s) (hh : C h)
    (hstatic : ∀ entry ∈ h.staticFields, T.Allows s entry.2) : P ((defineClass h).after s) := by
  unfold Interpreter.defineClass
  rcases run_register h s with ⟨f, hrun⟩ | ⟨cls, hcls, hparent, hrun⟩
  · rw [Exec.after_bind_of_error hrun]
    exact hs
  · have hget : (s.registry.insert cls).2.get? ⟨s.registry.size⟩ = some cls :=
      (Registry.get?_insert _ _ _).trans (if_pos rfl)
    have hvalue : (Evaluator.classValue ⟨s.registry.size⟩).run
        (s.withRegistry (s.registry.insert cls).2) =
        .ok (s.services.creator.classValue ⟨s.registry.size⟩)
          (s.withRegistry (s.registry.insert cls).2) := rfl
    rw [Exec.after_bind_of_ok hrun, Exec.after_bind_of_ok hvalue, Exec.after_bind_pure]
    refine hP.declare _ _ (hP.cls hs hh hstatic hparent hcls) fun id hid => ?_
    -- The value is the class that was registered, if it is a class at all.
    rcases s.services.creator.classValue_from ⟨s.registry.size⟩ with heq | ⟨l, heq⟩
    · rw [heq] at hid
      exact Value.classRef.inj hid ▸ hP.registered hget
    · rw [heq] at hid
      cases l <;> cases hid

lemma setGlobal {name : String} {v : Value} (hs : P s) (hv : T.Allows s v) :
    P ((setGlobal name v).after s) := by
  have hassign : (Exec.assignVariable root name v).run s =
      (Exec.assignIn name (s.services.naming.keep name) v root.scopes).run s := rfl
  rcases Exec.run_assignIn s name (s.services.naming.keep name) v root.scopes with
    ⟨id, scope, hid, hscope, hrun⟩ | ⟨f, hrun⟩
  · have hroot : id = root.scope := List.mem_singleton.mp hid
    subst hroot
    have hok : (Interpreter.setGlobal name v).run s = .ok () (s.withScope root.scope scope) := by
      have hassigned := hassign.trans hrun
      simp only [EStateM.run] at hassigned ⊢
      simp only [Interpreter.setGlobal, hassigned]
    obtain ⟨kind, -, -, -, rfl⟩ := Scope.of_assign hscope
    rw [Exec.after_of_ok hok]
    exact hP.declared hs hv
  · -- Only a name that is not there is declared.
    have hset : (Interpreter.setGlobal name v).run s = (Exec.declare root name .variable v).run s ∨
        (Interpreter.setGlobal name v).run s = .error (.fault f) s := by
      have hfailed := hassign.trans hrun
      simp only [EStateM.run] at hfailed ⊢
      simp only [Interpreter.setGlobal, hfailed]
      split
      next heq =>
        cases heq
        exact .inl rfl
      next => exact .inr rfl
    rcases hset with hset | hset
    · rw [Exec.after_congr hset]
      exact hP.declare name .variable hs hv
    · rw [Exec.after_of_error hset]
      exact hs

lemma start {config : Config} {services : Services} (hbuiltins : ∀ f ∈ builtins, T.host f)
    (hinitial : P (State.opened { config, services })) (h : start config services = .ok s) :
    P s := by
  have hdefine : ∀ l : List HostFunction, (∀ f ∈ l, T.host f) → ∀ s₁ s₂ : State, P s₁ →
      (l.forM Interpreter.defineFunction).run s₁ = .ok () s₂ → P s₂ := by
    intro l
    induction l with
    | nil =>
      intro _ s₁ s₂ hs₁ hrun
      cases hrun
      exact hs₁
    | cons f l ih =>
      intro hl s₁ s₂ hs₁ hrun
      obtain ⟨_, s₃, hfirst, hrest⟩ := run_bind_eq_ok.mp hrun
      refine ih (fun f' hf' => hl f' (List.mem_cons_of_mem f hf')) s₃ s₂ ?_ hrest
      have hs₃ := hP.defineFunction hs₁ (hl f List.mem_cons_self)
      rwa [Exec.after_of_ok hfirst] at hs₃
  exact hdefine Interpreter.builtins hbuiltins _ s hinitial (run_prepare_of_start h)

end Prepares

/-- A new interpreter has the services with which it was started. -/
lemma services_of_start {config : Config} {services : Services} (h : start config services = .ok s) :
    s.services = services := by
  have hkeeps : Prepares ⟨fun _ => True, fun _ _ => True⟩ (fun _ => True) (·.services = services) :=
    ⟨fun _ => trivial, fun hs _ => hs, fun hs _ => hs, fun hs _ _ _ _ => hs⟩
  exact hkeeps.start (fun _ _ => trivial) rfl h

namespace Upheld

variable {P : State → Prop} (hP : Upheld T P)

include hP

lemma prepares : Prepares T (HostClass.Meets T.host) P where
  registered := hP.registered
  declared := hP.declared
  function := hP.function
  cls := hP.cls

/-- What an operation keeps holds of all later states. -/
theorem later {s' : State} (hs : P s) (h : Later T s s') : P s' := by
  induction h with
  | refl => exact hs
  | tail _ hoperation ih =>
    cases hoperation with
    | defineFunction hf => exact hP.prepares.defineFunction ih hf
    | defineClass hh hstatic => exact hP.prepares.defineClass ih hh hstatic
    | setGlobal name hv => exact hP.prepares.setGlobal ih hv
    | cancel => exact hP.cancel ih
    | request bound hm => exact hP.request bound ih hm

end Upheld

/-- What holds of a new interpreter and is kept by each operation of a host holds of all the states that
the host can bring about. -/
theorem Reached.holds {P : State → Prop} (hP : Upheld T P) (hbuiltins : ∀ f ∈ builtins, T.host f)
    (hinitial : ∀ config services, (∀ id, services.operators.Brings id → T.knows {} id) →
      P (State.opened { config, services })) (hs : Reached T s) : P s := by
  obtain ⟨config, services, s₀, hoperators, hstart, hlater⟩ := hs
  exact hP.later (hP.prepares.start hbuiltins (hinitial config services hoperators) hstart) hlater

end Interpreter

/-! ## Regimes that serve a host -/

/-- A host may ask for anything at the root. -/
structure Regime.Serves (R : Regime) (T : Terms) : Prop where
  knows : ∀ {r id}, T.knows r id → R.Knows r id
  evaluate : ∀ {n s e}, R.Good s → R.Does n s (.evaluate Interpreter.root e)
  sequence : ∀ {n s body}, R.Good s → R.Does n s (.sequence Interpreter.root body)
  call : ∀ {n s f args}, R.Good s → R.Sound f s → (∀ v ∈ args, R.Sound v s) →
    R.Does n s (.call Interpreter.root f args)
  setUp : ∀ {n s id args}, R.Good s → R.Knows s.registry id → (∀ v ∈ args, R.Sound v s) →
    R.Good (s.withInstance id) ∧
      R.Does n (s.withInstance id) (.setUp Interpreter.root id s.nextInstance args)

/-- What is known of a run that a host asked for. -/
structure Served (R : Regime) (n : Nat) {α : Type} (m : Evaluator → Exec α) (s : State) : Prop where
  left : R.Left (fun _ _ => True) s ((m (Evaluator.within n)).run s)
  allowed : ∀ t s', (Evaluator.within n).Asks m s t s' → R.Good s' ∧ R.Does n s' t
  enters : ∀ t s', (Evaluator.within n).Asks m s t s' → ∃ s₁, R.Kept s s₁ ∧ t.Enters s₁ s'
  persists : ∀ t s', (Evaluator.within n).Asks m s t s' →
    (((Evaluator.within n).perform t).after s').Persists ((m (Evaluator.within n)).after s)

namespace Served

variable {α β : Type} {R : Regime} {n : Nat} {s : State} {t : Task} {m : Evaluator → Exec α}

/-- A task that is performed as it is. -/
lemma perform (n : Nat) (hs : R.Good s) (ht : R.Does n s t) :
    Served R n (fun ev => ev.perform t) s := by
  have hleft := (Evaluator.within_heeds R n).perform t s hs ht
  refine ⟨?_, fun t' s' ha => ?_, fun t' s' ha => ?_, fun t' s' ha => ?_⟩
  · cases hr : ((Evaluator.within n).perform t).run s with
    | ok a s' =>
      rw [hr] at hleft
      exact ⟨hleft.1, trivial⟩
    | error e s' =>
      rw [hr] at hleft
      exact hleft
  all_goals obtain ⟨rfl, rfl⟩ := Evaluator.asks_perform ha
  · exact ⟨hs, ht⟩
  · exact ⟨s', R.refl hs, .inl rfl⟩
  · exact .refl _

/-- The step of a task that is no call. -/
lemma step (n : Nat) (hs : R.Good s) (ht : R.Does (n + 1) s t) (hcall : t.isCall = false) :
    Served R n (fun ev => ev.step t) s := by
  have hheeds := Evaluator.within_heeds R n
  have htracks := t.tracks hs ht
  have hinside : t.inside s = s := Task.inside_of_not_isCall hcall
  refine ⟨?_, fun t' s' ha => ?_, fun t' s' ha => ?_, fun t' s' ha => ?_⟩
  · have hleft := htracks.outcome _ hheeds
    cases hr : ((Evaluator.within n).step t).run s with
    | ok a s' =>
      rw [hr] at hleft
      exact ⟨hleft.1, trivial⟩
    | error e s' =>
      rw [hr] at hleft
      exact hleft
  · obtain ⟨s₁, hin, hlead⟩ := htracks.asked _ hheeds t' s' ha
    exact R.lead hin hlead
  · obtain ⟨s₁, hin, hlead⟩ := htracks.asked _ hheeds t' s' ha
    exact ⟨s₁, hinside ▸ hin.kept, hlead.enters⟩
  · exact htracks.persists _ hheeds t' s' ha

lemma congr {l : Evaluator → Exec α} (h : Served R n l s)
    (heq : ∀ ev, (m ev).run s = (l ev).run s) : Served R n m s where
  left := by
    rw [heq]
    exact h.left
  allowed := fun t s' ha => h.allowed t s' (ha.congr_from heq)
  enters := fun t s' ha => h.enters t s' (ha.congr_from heq)
  persists := fun t s' ha => by
    rw [Exec.after_congr (heq _)]
    exact h.persists t s' (ha.congr_from heq)

/-- What is done with the result leaves the state as it is. -/
lemma finish (h : Served R n m s) {k : α → Exec β}
    (hk : ∀ a s', (∃ b, (k a).run s' = .ok b s') ∨ ∃ f, (k a).run s' = .error (.fault f) s') :
    Served R n (fun ev => m ev >>= k) s where
  left := by
    have hleft := h.left
    cases hr : (m (Evaluator.within n)).run s with
    | error e s' =>
      rw [hr] at hleft
      rw [run_bind_error hr]
      exact hleft
    | ok a s' =>
      rw [hr] at hleft
      rw [run_bind_ok hr]
      rcases hk a s' with ⟨b, hb⟩ | ⟨f, hf⟩
      · rw [hb]
        exact ⟨hleft.1, trivial⟩
      · rw [hf]
        exact ⟨R.near hleft.1, nofun⟩
  allowed := fun t s' ha => by
    rcases Evaluator.asks_bind ha with ha | ⟨a, s₁, -, ha⟩
    · exact h.allowed t s' ha
    · exact absurd ha (Evaluator.not_asks_const _)
  enters := fun t s' ha => by
    rcases Evaluator.asks_bind ha with ha | ⟨a, s₁, -, ha⟩
    · exact h.enters t s' ha
    · exact absurd ha (Evaluator.not_asks_const _)
  persists := fun t s' ha => by
    rcases Evaluator.asks_bind ha with ha | ⟨a, s₁, -, ha⟩
    · have hpersists := h.persists t s' ha
      cases hr : (m (Evaluator.within n)).run s with
      | error e s₁ =>
        rw [Exec.after_of_error hr] at hpersists
        rwa [Exec.after_bind_of_error hr]
      | ok a s₁ =>
        rw [Exec.after_of_ok hr] at hpersists
        rw [Exec.after_bind_of_ok hr]
        rcases hk a s₁ with ⟨b, hb⟩ | ⟨f, hf⟩
        · rwa [Exec.after_of_ok hb]
        · rwa [Exec.after_of_error hf]
    · exact absurd ha (Evaluator.not_asks_const _)

/-- Running a script. -/
lemma run {body : List Stmt} (hs : R.Good s) (ht : R.Does n s (.sequence Interpreter.root body)) :
    Served R n (fun ev => Interpreter.run ev body) s := by
  refine (perform n hs ht).finish fun flow s' => ?_
  cases flow with
  | jumps label => exact .inr ⟨_, rfl⟩
  | next | breaks | continues | returns => exact .inl ⟨_, rfl⟩

/-- Making an instance. -/
lemma construct {c : Context} {id : ClassId} {args : List Value} (hs : R.Good s)
    (ht : R.Good (s.withInstance id) ∧
      R.Does n (s.withInstance id) (.setUp c id s.nextInstance args)) :
    Served R n (fun ev => ev.construct c id args) s := by
  have hrun : ∀ ev : Evaluator, (ev.construct c id args).run s =
      ((ev.perform (.setUp c id s.nextInstance args)) >>= fun _ =>
        (pure (.instanceRef s.nextInstance) : Exec Value)).run (s.withInstance id) :=
    fun _ => rfl
  have hasks : ∀ t s', (Evaluator.within n).Asks (fun ev => ev.construct c id args) s t s' →
      t = .setUp c id s.nextInstance args ∧ s' = s.withInstance id := by
    intro t s' ha
    rcases Evaluator.asks_bind (ha.congr_from hrun) with ha | ⟨_, _, -, ha⟩
    · exact Evaluator.asks_perform ha
    · exact absurd ha (Evaluator.not_asks_const _)
  refine ⟨?_, fun t s' ha => ?_, fun t s' ha => ?_, fun t s' ha => ?_⟩
  · rw [hrun]
    have hleft := (Evaluator.within_heeds R n).perform _ _ ht.1 ht.2
    cases hr : ((Evaluator.within n).perform (.setUp c id s.nextInstance args)).run
        (s.withInstance id) with
    | ok a s' =>
      rw [hr] at hleft
      rw [run_bind_ok hr]
      exact ⟨R.constructed hs hleft.1 (hleft.2 s.isSome_nextInstance), trivial⟩
    | error e s' =>
      rw [hr] at hleft
      rw [run_bind_error hr]
      exact ⟨R.abandoned hs hleft.1, hleft.2⟩
  all_goals obtain ⟨rfl, rfl⟩ := hasks t s' ha
  · exact ht
  · exact ⟨s, R.refl hs, .inr ⟨c, id, args, rfl, rfl⟩⟩
  · rw [Exec.after_congr (hrun _), Exec.after_bind_pure]
    exact .refl _

end Served

/-- A regime is followed in all that a host may ask for. -/
theorem Interpreter.Request.served {α : Type} {R : Regime} {T : Terms} {s : State}
    {m : Evaluator → Exec α} (hR : R.Serves T) (hs : R.Good s) (hm : Request T s m) (n : Nat) :
    Served R n m s := by
  have hsound : ∀ v, T.Allows s v → R.Sound v s := fun v hv id hid => hR.knows (hv id hid)
  cases hm with
  | run body => exact .run hs (hR.sequence hs)
  | evaluate e => exact .perform n hs (hR.evaluate hs)
  | call hf hargs =>
    exact .perform n hs (hR.call hs (hsound _ hf) fun v hv => hsound v (hargs v hv))
  | @callGlobal args name hargs =>
    have hrun : (Exec.lookup root name).run s =
        (Exec.lookupIn name (s.services.naming.keep name) root.scopes).run s := rfl
    rcases Exec.run_lookupIn s name (s.services.naming.keep name) root.scopes with
      ⟨f, hf, hstored⟩ | ⟨f, hf⟩
    · have hcall : R.Does (n + 1) s (.call root f args) :=
        hR.call hs (R.stored hs hstored) fun v hv => hsound v (hargs v hv)
      exact (Served.step n hs hcall rfl).congr fun _ => run_bind_ok (hrun.trans hf)
    · have hfail : ∀ ev : Evaluator, (Interpreter.callGlobal ev name args).run s =
          .error (.fault f) s := fun _ => run_bind_error (hrun.trans hf)
      have hnot : ∀ t s', ¬(Evaluator.within n).Asks
          (fun ev => Interpreter.callGlobal ev name args) s t s' := by
        rintro t s' ⟨other, -, hne⟩
        exact hne ((hfail other).trans (hfail _).symm)
      refine ⟨?_, fun t s' ha => absurd ha (hnot t s'), fun t s' ha => absurd ha (hnot t s'),
        fun t s' ha => absurd ha (hnot t s')⟩
      rw [hfail]
      exact ⟨R.near (R.refl hs), nofun⟩
  | construct hid hargs =>
    exact .construct hs (hR.setUp hs (hR.knows hid) fun v hv => hsound v (hargs v hv))

end ScriptLang
