/-
Properties with automatic accessors.

The accessors of such a property are functions of one statement.  A call of one of them can be followed from
its start to its end (`Evaluator.run_invoke_singleton`): the setter puts its argument into the hidden field
(`Evaluator.of_run_invoke_autoSetter`) and the getter gives what is there (`Evaluator.run_invoke_autoGetter`).

So such a property is a variable that only its accessors can see: an assignment that succeeds writes one slot
and nothing else, and what is read afterwards is what was assigned
(`auto_properties_are_hidden_variables`).
-/
import ScriptLang.Proofs.Class.HiddenFields
import ScriptLang.Proofs.Eval.Compound
import ScriptLang.Proofs.Scope.Hoisting

namespace ScriptLang

/-! ## Calls with one statement -/

/-- What a call gives whose body ended so. -/
def Flow.answer : Flow → Exec Value
  | .returns value => return value
  | .jumps label => Exec.fail (.labelNotFound label)
  | _ => Exec.nullValue

/-- The statement declares nothing, not even a label. -/
structure Stmt.IsPlain (st : Stmt) : Prop where
  hoist : ∀ c, st.hoist c = pure ()
  label : ∀ name, st.form ≠ .label name

lemma Exec.run_asCall_eq_ok {α : Type} {m : Exec α} {s s' : State} {a : α} :
    (asCall m).run s = .ok a s' ↔
      s.depth < s.config.maxCallDepth ∧ ∃ t, m.run s.entered = .ok a t ∧ s' = t.left := by
  by_cases hd : s.depth < s.config.maxCallDepth
  · cases hm : m.run s.entered with
    | ok b t =>
      rw [run_asCall_of_ok hd hm]
      simp [hd, eq_comm]
    | error h t => simp [run_asCall_of_error hd hm]
  · simp [run_asCall_of_le (Nat.not_lt.mp hd), hd]

namespace Evaluator

variable {st : Stmt} {decl : FunctionDecl} {args : List Value} {c closure : Context} {id : ClassId}
  {receiver : Option Value} {s s' : State} {flow : Flow} {w : Value} (n : Nat)

/-- A list of one statement does what the statement does. -/
lemma runFrom_singleton (self : Evaluator) (bound : Nat) (hst : st.IsPlain) :
    self.runFrom c [st] (bound + 1) [st] = Exec.checkCancelled >>= fun _ => self.execute c st := by
  refine bind_congr fun _ => ?_
  conv_rhs => rw [← bind_pure (self.execute c st)]
  refine bind_congr fun flow => ?_
  cases flow with
  | jumps label =>
    have hnone : fromLabel? label [st] = none := by
      unfold fromLabel?
      split
      next name hform => exact absurd hform (hst.label name)
      next => rfl
    simp only [hnone]
  | next => cases bound <;> rfl
  | breaks | continues | returns => rfl

lemma run_runBody_singleton (hst : st.IsPlain) :
    ((within (n + 2)).runBody c [st]).run s = .ok flow s' ↔ s.stopped = false ∧
      ((within (n + 1)).execute (.block ⟨s.scopes.size⟩ .plain c) st).run s.opened = .ok flow s' := by
  have hblock : (Exec.newBlock c .plain).run s = .ok (.block ⟨s.scopes.size⟩ .plain c) s.opened := rfl
  have hhoist : ∀ block, hoistAll block [st] = pure () := by
    intro block
    show Exec.located st.place (st.hoist block) >>= _ = _
    rw [hst.hoist]
    rfl
  have hsequence : ∀ block, (within (n + 2)).sequence block [st] =
      Exec.checkCancelled >>= fun _ => (within (n + 1)).execute block st := by
    intro block
    show hoistAll block [st] >>= (fun _ => (within (n + 1)).runFrom block [st] (n + 1) [st]) = _
    rw [hhoist, pure_bind, runFrom_singleton _ _ hst]
  have hcheck := Exec.run_checkCancelled s.opened
  have hsame : s.opened.stopped = s.stopped := rfl
  rw [runBody, run_bind_ok hblock, hsequence]
  rw [hsame] at hcheck
  cases hstopped : s.stopped with
  | true =>
    rw [hstopped, if_pos rfl] at hcheck
    simp [run_bind_error hcheck]
  | false =>
    rw [hstopped, if_neg (by decide)] at hcheck
    simp [run_bind_ok hcheck]

lemma runIn_eq (self : Evaluator) : self.runIn c decl args =
    self.bindParameters c decl args >>= fun _ => self.runBody c decl.body >>= Flow.answer := by
  refine bind_congr fun _ => bind_congr fun flow => ?_
  cases flow <;> rfl

/-- When a call of a method with one statement succeeds, and what comes out of it. -/
lemma run_invoke_singleton (hbody : decl.body = [st]) (hst : st.IsPlain) :
    ((within (n + 3)).invoke (.method closure id receiver) decl args).run s = .ok w s' ↔
      s.depth < s.config.maxCallDepth ∧ ∃ t flow t₁ t₂,
        ((within (n + 2)).bindParameters (.method ⟨s.scopes.size⟩ closure id receiver) decl args).run
          s.opened.entered = .ok () t ∧ t.stopped = false ∧
        ((within (n + 1)).execute
          (.block ⟨t.scopes.size⟩ .plain (.method ⟨s.scopes.size⟩ closure id receiver)) st).run t.opened =
            .ok flow t₁ ∧ flow.answer.run t₁ = .ok w t₂ ∧ s' = t₂.left := by
  have hcontext : (Exec.newContext (.method closure id receiver)).run s =
      .ok (.method ⟨s.scopes.size⟩ closure id receiver) s.opened := rfl
  show ((within (n + 2)).runFunction _ decl args).run s = _ ↔ _
  rw [runFunction, run_bind_ok hcontext, Exec.run_asCall_eq_ok, runIn_eq, hbody]
  refine and_congr_right fun _ => ?_
  simp only [run_bind_eq_ok, run_runBody_singleton n hst]
  constructor
  · rintro ⟨t₂, ⟨_, t, hbind, flow, t₁, ⟨hstopped, hexecute⟩, hanswer⟩, rfl⟩
    exact ⟨t, flow, t₁, t₂, hbind, hstopped, hexecute, hanswer, rfl⟩
  · rintro ⟨t, flow, t₁, t₂, hbind, hstopped, hexecute, hanswer, rfl⟩
    exact ⟨t₂, ⟨(), t, hbind, flow, t₁, ⟨hstopped, hexecute⟩, hanswer⟩, rfl⟩

end Evaluator

/-! ## The code of the accessors -/

namespace Evaluator

section Fields

variable {s : State} {c : Context} {this v : Value} {target : Target} {name key : String} {owner : ClassId}
  {p : Position} (n : Nat) (hthis : c.this = some this)
  (htarget : Target.ofValue? s.heap this = some target)
  (hfound : (resolve c target name).run s = .ok (some (.field owner key)) s)

include hthis in
lemma run_evaluate_this : ((within (n + 1)).evaluate c (.ofForm .this)).run s = .ok this s := by
  refine Exec.run_located_of_ok ?_
  show ((within n).evaluateForm c .this).run s = _
  rw [evaluateForm, hthis]
  rfl

include hthis htarget in
/-- The setter does not come to its end if the search for the field does not. -/
lemma run_execute_assignOfThis_endless {x : String}
    (hassign : s.services.operators.binary.get? "=" = some .assign)
    (hvalue : (Exec.lookup c x).run s = .ok v s)
    (hendless : (resolve c target name).run s = .error .exhausted s) :
    ((within (n + 4)).execute c ⟨p, .expr (.assign (.ofThis name) (.ofForm (.variable x)))⟩).run s =
      .error .exhausted s := by
  have hvariable : ((within (n + 2)).evaluate c (.ofForm (.variable x))).run s = .ok v s :=
    Exec.run_located_of_ok hvalue
  have htargeted : ((within (n + 2)).assign c (.ofThis name) v).run s = .error .exhausted s := by
    refine Exec.run_located_of_error (h := .exhausted) ?_
    show ((within (n + 1)).evaluate c (.ofForm .this) >>= fun w =>
      (within (n + 1)).setMember c w name v).run s = _
    rw [run_bind_ok (run_evaluate_this n hthis), (Access.set htarget).run_eq, run_bind_error hendless]
  have hexpr : ((within (n + 3)).evaluate c (.assign (.ofThis name) (.ofForm (.variable x)))).run s =
      .error .exhausted s := by
    refine (run_evaluate_binary (n + 2) hassign).trans (Exec.run_located_of_error (h := .exhausted) ?_)
    rw [applyBinary, run_bind_ok hvariable, run_bind_error htargeted]
  exact Exec.run_located_of_error (h := .exhausted) (run_bind_error hexpr)

include hthis htarget hfound

lemma run_evaluate_ofThis : ((within (n + 2)).evaluate c (.ofThis name)).run s =
    .ok ((s.slot? (target.slot owner key)).getD .null) s := by
  refine Exec.run_located_of_ok ?_
  show ((within (n + 1)).evaluate c (.ofForm .this) >>= fun v => (within (n + 1)).memberOf c v name).run s = _
  rw [run_bind_ok (run_evaluate_this n hthis), (Access.get htarget).run_eq, run_bind_ok hfound]
  exact run_readField target owner key s

lemma run_assign_ofThis : ((within (n + 2)).assign c (.ofThis name) v).run s =
    .ok () (s.put (target.slot owner key) v) := by
  refine Exec.run_located_of_ok ?_
  show ((within (n + 1)).evaluate c (.ofForm .this) >>= fun w =>
    (within (n + 1)).setMember c w name v).run s = _
  rw [run_bind_ok (run_evaluate_this n hthis), (Access.set htarget).run_eq, run_bind_ok hfound]
  exact run_writeField target owner key v s

/-- What the getter does: it returns the value of the field. -/
lemma run_execute_returnOfThis (hreturn : ∀ atTopLevel, c.canReturn atTopLevel = true) :
    ((within (n + 3)).execute c ⟨p, .returnValue (some (.ofThis name))⟩).run s =
      .ok (.returns ((s.slot? (target.slot owner key)).getD .null)) s := by
  have hget : (get : Exec State).run s = .ok s s := rfl
  refine Exec.run_located_of_ok ?_
  show (get >>= fun s => if c.canReturn s.config.topLevelReturn then _ else _ : Exec Flow).run s = _
  rw [run_bind_ok hget, if_pos (hreturn _), run_bind_ok (run_evaluate_ofThis n hthis htarget hfound)]
  rfl

/-- What the setter does: it puts the value of a variable into the field. -/
lemma run_execute_assignOfThis {x : String} (hassign : s.services.operators.binary.get? "=" = some .assign)
    (hvalue : (Exec.lookup c x).run s = .ok v s) :
    ((within (n + 4)).execute c ⟨p, .expr (.assign (.ofThis name) (.ofForm (.variable x)))⟩).run s =
      .ok .next (s.put (target.slot owner key) v) := by
  have hvariable : ((within (n + 2)).evaluate c (.ofForm (.variable x))).run s = .ok v s :=
    Exec.run_located_of_ok hvalue
  have hexpr : ((within (n + 3)).evaluate c (.assign (.ofThis name) (.ofForm (.variable x)))).run s =
      .ok v (s.put (target.slot owner key) v) := by
    refine (run_evaluate_binary (n + 2) hassign).trans (Exec.run_located_of_ok ?_)
    rw [applyBinary, run_bind_ok hvariable, run_bind_ok (run_assign_ofThis n hthis htarget hfound)]
    rfl
  refine Exec.run_located_of_ok ?_
  exact run_bind_ok hexpr

end Fields

end Evaluator

/-! ## Calls of the accessors -/

/-- A call can start: there are not too many already, and the script was not cancelled. -/
def State.Ready (s : State) : Prop := s.depth < s.config.maxCallDepth ∧ s.stopped = false

/-- Nothing is new but some scopes. -/
def State.AddsScopes (s s' : State) : Prop := ∃ added, s' = { s with scopes := s.scopes ++ added }

namespace State

variable {s s' : State}

lemma Ready.put (h : s.Ready) (slot : Slot) (v : Value) : (s.put slot v).Ready := by
  cases slot <;> exact h

lemma Ready.addsScopes (h : s.Ready) (hadds : s.AddsScopes s') : s'.Ready := by
  obtain ⟨added, rfl⟩ := hadds
  exact h

lemma AddsScopes.slot?_eq (h : s.AddsScopes s') : s'.slot? = s.slot? := by
  obtain ⟨added, rfl⟩ := h
  rfl

lemma AddsScopes.services (h : s.AddsScopes s') : s'.services = s.services := by
  obtain ⟨added, rfl⟩ := h
  rfl

lemma AddsScopes.heap (h : s.AddsScopes s') : s'.heap = s.heap := by
  obtain ⟨added, rfl⟩ := h
  rfl

lemma AddsScopes.registry (h : s.AddsScopes s') : s'.registry = s.registry := by
  obtain ⟨added, rfl⟩ := h
  rfl

end State

/-- A name in the scope of a context is seen from a new block in it. -/
lemma Exec.run_lookup_newBlock {c : Context} {s : State} {name : String} {v : Value}
    (hc : c.scope.index < s.scopes.size)
    (hname : (s.scopeAt c.scope).lookup (s.services.naming.keep name) = .found v) :
    (lookup (.block ⟨s.scopes.size⟩ .plain c) name).run s.opened = .ok v s.opened := by
  have hscope : ∀ id, (scopeOf id).run s.opened = .ok (s.opened.scopeAt id) s.opened := fun _ => rfl
  have hnew : s.opened.scopeAt ⟨s.scopes.size⟩ = {} := by simp [State.opened, State.scopeAt]
  have hown : s.opened.scopeAt c.scope = s.scopeAt c.scope := by
    simp only [State.opened, State.scopeAt]
    rw [Array.getElem?_push_lt hc, Array.getElem?_eq_getElem hc]
  obtain ⟨rest, hrest⟩ : ∃ rest, c.scopes = c.scope :: rest := by
    cases c <;> exact ⟨_, rfl⟩
  show (lookupIn name (s.services.naming.keep name) (⟨s.scopes.size⟩ :: c.scopes)).run s.opened = _
  rw [hrest, lookupIn, run_bind_ok (hscope _), hnew]
  show (lookupIn name (s.services.naming.keep name) (c.scope :: rest)).run s.opened = _
  rw [lookupIn, run_bind_ok (hscope _), hown, hname]
  rfl

namespace Evaluator

lemma run_callMethod_script {self : Evaluator} {c closure : Context} {owner : ClassId} {cls : Class}
    {constructor : Option FunctionDecl} {decl : FunctionDecl} {receiver : Option Value} {args : List Value}
    {s : State} (hcls : s.registry.get? owner = some cls)
    (horigin : cls.origin = .script closure constructor) :
    (self.callMethod c owner (.script decl) receiver args).run s =
      (self.invoke (.method closure owner receiver) decl args).run s := by
  rw [callMethod, run_bind_ok (Exec.run_classOf hcls), horigin]

/-- One argument for one parameter: it is found in the scope afterwards. -/
lemma exists_scope_of_bindParameters {self : Evaluator} {c : Context} {decl : FunctionDecl} {p : Parameter}
    {v : Value} {s s' : State} (hdecl : decl.parameters = [p])
    (h : (self.bindParameters c decl [v]).run s = .ok () s') :
    ∃ scope, scope.lookup (s.services.naming.keep p.name) = .found v ∧ s' = s.withScope c.scope scope := by
  have hrun : (self.bindParameters c decl [v]).run s =
      (Exec.declare c p.name .parameter v >>= fun _ => pure ()).run s := by
    rw [bindParameters, hdecl]
    rfl
  obtain ⟨_, _, hdeclare, ⟨⟩⟩ := run_bind_eq_ok.mp (hrun.symm.trans h)
  rw [Exec.run_declare] at hdeclare
  split at hdeclare
  next => cases hdeclare
  next =>
    cases hdeclare
    exact ⟨_, Scope.lookup_declare_self _ _ _ _, rfl⟩

variable {s s' : State} {m : MemberDecl} {closure : Context} {id owner : ClassId} {receiver : Option Value}
  {target : Target} {key : String} {v w : Value} (n : Nat)
  (htarget : Target.ofValue? s.heap (receiver.getD (.classRef id)) = some target)
  (hfound : ∀ c : Context, c.owner = some id →
    (resolve c target (Class.hiddenName m.name)).run s = .ok (some (.field owner key)) s)

include htarget hfound

variable (closure) in
/-- A getter gives what is in its field, if it can be called at all. -/
lemma run_invoke_autoGetter (hready : s.Ready) :
    ∃ s', ((within (n + 5)).invoke (.method closure id receiver) (Draft.autoGetter m) []).run s =
      .ok ((s.slot? (target.slot owner key)).getD .null) s' ∧ s.AddsScopes s' := by
  have hplain : (⟨m.place, .returnValue (some (.ofThis (Class.hiddenName m.name)))⟩ : Stmt).IsPlain :=
    ⟨fun _ => rfl, nofun⟩
  let c : Context := .block ⟨s.opened.scopes.size⟩ .plain (.method ⟨s.scopes.size⟩ closure id receiver)
  have hthis : c.this = some (receiver.getD (.classRef id)) := rfl
  have hfound' := resolve_of_revised (s := s) (t := s.opened.entered.opened) (.refl _) (hfound c rfl)
  have hexecute := run_execute_returnOfThis (s := s.opened.entered.opened) (p := m.place) n hthis htarget
    hfound' fun _ => rfl
  refine ⟨s.opened.entered.opened.left, ?_, #[{}, {}], rfl⟩
  exact (run_invoke_singleton (n + 2) rfl hplain).mpr
    ⟨hready.1, _, _, _, _, rfl, hready.2, hexecute, rfl, rfl⟩

omit htarget hfound in
/-- A setter that succeeds has run its statement in a new block, in which its argument can be seen.  The next
call would start in the same way. -/
lemma exists_execute_of_invoke_autoSetter
    (h : ((within (n + 6)).invoke (.method closure id receiver) (Draft.autoSetter m) [v]).run s = .ok w s') :
    s.Ready ∧ ∃ (block : Context) (flow : Flow) (t t₁ t₂ : State), s.entered.AddsScopes t ∧
      block.owner = some id ∧ block.this = some (receiver.getD (.classRef id)) ∧
      (Exec.lookup block "value").run t = .ok v t ∧
      ((within (n + 4)).execute block ⟨m.place, .expr (.assign (.ofThis (Class.hiddenName m.name))
        (.ofForm (.variable "value")))⟩).run t = .ok flow t₁ ∧
      flow.answer.run t₁ = .ok w t₂ ∧ s' = t₂.left := by
  have hplain : (⟨m.place, .expr (.assign (.ofThis (Class.hiddenName m.name))
      (.ofForm (.variable "value")))⟩ : Stmt).IsPlain := ⟨fun _ => rfl, nofun⟩
  rw [run_invoke_singleton (n + 3) rfl hplain] at h
  obtain ⟨hdepth, _, flow, t₁, t₂, hbind, hstopped, hexecute, hanswer, rfl⟩ := h
  obtain ⟨scope, hscope, rfl⟩ := exists_scope_of_bindParameters rfl hbind
  let c : Context := .method ⟨s.scopes.size⟩ closure id receiver
  let t : State := s.opened.entered.withScope c.scope scope
  have hc : c.scope.index < s.opened.entered.scopes.size := by
    simp [State.opened, State.entered, c, Context.scope]
  have hlookup : (Exec.lookup (.block ⟨t.scopes.size⟩ .plain c) "value").run t.opened = .ok v t.opened := by
    refine Exec.run_lookup_newBlock (by simpa [t, State.withScope] using hc) ?_
    rw [State.scopeAt_withScope_self hc]
    exact hscope
  have hscopes : t.opened.scopes = s.scopes ++ #[scope, {}] :=
    Array.ext' (by simp [t, c, State.opened, State.entered, State.withScope, Context.scope])
  have hadds : s.entered.AddsScopes t.opened := by
    refine ⟨#[scope, {}], ?_⟩
    show t.opened = { s.entered with scopes := s.scopes ++ #[scope, {}] }
    rw [← hscopes]
    rfl
  exact ⟨⟨hdepth, hstopped⟩, .block ⟨t.scopes.size⟩ .plain c, flow, t.opened, t₁, t₂, hadds, rfl,
    rfl, hlookup, hexecute, hanswer, rfl⟩

/-- It has put the value into its field. -/
lemma of_run_invoke_autoSetter (hassign : s.services.operators.binary.get? "=" = some .assign)
    (h : ((within (n + 6)).invoke (.method closure id receiver) (Draft.autoSetter m) [v]).run s = .ok w s') :
    s.Ready ∧ (s.put (target.slot owner key) v).AddsScopes s' := by
  obtain ⟨hready, block, flow, t, t₁, t₂, hadds, howner, hthis, hlookup, hexecute, hanswer, rfl⟩ :=
    exists_execute_of_invoke_autoSetter n h
  have hrevised : s.registry.Revised t.registry := hadds.registry ▸ .refl s.registry
  cases hexecute.symm.trans (run_execute_assignOfThis n hthis (hadds.heap ▸ htarget)
    (resolve_of_revised hrevised (hfound block howner)) (hadds.services ▸ hassign) hlookup)
  cases hanswer
  refine ⟨hready, ?_⟩
  obtain ⟨added, rfl⟩ := hadds
  exact ⟨added, by cases target.slot owner key <;> rfl⟩

omit hfound in
/-- It has come to an end, so the search for the field has. -/
lemma not_endless_of_run_invoke_autoSetter
    (hassign : s.services.operators.binary.get? "=" = some .assign)
    (hendless : ∀ (t : State) (c : Context), t.registry = s.registry → c.owner = some id →
      (resolve c target (Class.hiddenName m.name)).run t = .error .exhausted t) :
    ((within (n + 6)).invoke (.method closure id receiver) (Draft.autoSetter m) [v]).run s ≠ .ok w s' := by
  intro h
  obtain ⟨-, block, flow, t, t₁, t₂, hadds, howner, hthis, hlookup, hexecute, -, -⟩ :=
    exists_execute_of_invoke_autoSetter n h
  cases hexecute.symm.trans (run_execute_assignOfThis_endless n hthis (hadds.heap ▸ htarget)
    (hadds.services ▸ hassign) hlookup (hendless t block hadds.registry howner))

end Evaluator

/-! ## Properties with automatic accessors -/

/-- The property has an automatic getter and an automatic setter. -/
def MemberDecl.IsAuto (m : MemberDecl) : Prop :=
  ∃ initializer, m.form = .property (some .auto) (some .auto) initializer

/-- What such a property is made into. -/
def MemberDecl.autoMember (m : MemberDecl) : Member :=
  .property (some (.script (Draft.autoGetter m))) (some (.script (Draft.autoSetter m)))

/-- The key of the field behind a property. -/
def ClassDecl.hiddenKey (decl : ClassDecl) (m : MemberDecl) : String :=
  Class.key .isPrivate decl.name (Class.hiddenName m.name)

lemma ClassDecl.Describes.hasField_hiddenKey {decl : ClassDecl} {cls : Class} {m : MemberDecl}
    (h : decl.Describes cls) (hm : m ∈ decl.members) (hauto : m.IsAuto) :
    cls.hasField (.ofStatic m.isStatic) (decl.hiddenKey m) = true := by
  obtain ⟨parent, c, draft, hdraft, hrevised⟩ := h
  obtain ⟨initializer, hform⟩ := hauto
  have hslot : (⟨decl.hiddenKey m, initializer⟩ : Field) ∈ m.slots decl.name := by
    simp [MemberDecl.slots, hform, Draft.isAuto, hiddenKey]
  have hlisted : (⟨decl.hiddenKey m, initializer⟩ : Field) ∈ decl.slotsOn (.ofStatic m.isStatic) :=
    List.mem_flatMap.mpr ⟨m, List.mem_filter.mpr ⟨hm, by simp⟩, hslot⟩
  rw [hrevised.hasField, (ClassDecl.made_of_ofDecl hdraft).hasField_iff]
  exact List.mem_map_of_mem hlisted

lemma ClassDecl.Describes.origin {decl : ClassDecl} {cls : Class} (h : decl.Describes cls) :
    ∃ closure, cls.origin = .script closure decl.constructor? := by
  obtain ⟨parent, c, draft, hdraft, hrevised⟩ := h
  exact ⟨c, hrevised.origin.trans (ClassDecl.made_of_ofDecl hdraft).origin⟩

/-- The target of `this` in a method of the class `owner` that was called on the target. -/
def Target.inside (target : Target) (owner : ClassId) : Target :=
  if target.receiver.isSome then target else ⟨owner, .ofClass, none⟩

/-- Code in the context `c` that names the member `m` of the value `o` comes to the property `m`, which has
automatic accessors, of the class `id`, which was declared by `decl`. -/
structure SeesAutoProperty (s : State) (c : Context) (o : Value) (target : Target) (id : ClassId)
    (decl : ClassDecl) (m : MemberDecl) : Prop where
  identified : decl.Identified
  declared : m ∈ decl.members
  auto : m.IsAuto
  described : ∃ cls, s.registry.get? id = some cls ∧ decl.Describes cls
  receiver : Target.ofValue? s.heap o = some target
  side : target.side = .ofStatic m.isStatic
  resolves : (resolve c target m.name).run s = .ok (some (.member id m.autoMember)) s

lemma Target.of_ofValue? {h : Heap} {o : Value} {target : Target} (ho : Target.ofValue? h o = some target) :
    (∃ i start, o = .instanceRef i ∧ h.classOf? i = some start ∧
      target = ⟨start, .ofInstance, some (.instanceRef i)⟩) ∨
      ∃ start, o = .classRef start ∧ target = ⟨start, .ofClass, none⟩ := by
  cases o with
  | instanceRef i =>
    obtain ⟨start, hstart, rfl⟩ := Option.map_eq_some_iff.mp ho
    exact .inl ⟨i, start, rfl, hstart, rfl⟩
  | classRef start =>
    cases ho
    exact .inr ⟨start, rfl, rfl⟩
  | _ => cases ho

/-- `this` in a method is the receiver, or the class itself. -/
lemma Target.ofValue?_inside {h : Heap} {o : Value} {target : Target}
    (ho : Target.ofValue? h o = some target) (owner : ClassId) :
    Target.ofValue? h (target.receiver.getD (.classRef owner)) = some (target.inside owner) := by
  rcases of_ofValue? ho with ⟨i, start, rfl, hstart, rfl⟩ | ⟨start, rfl, rfl⟩
  · exact ho
  · rfl

namespace SeesAutoProperty

variable {s s' : State} {c : Context} {o v : Value} {target : Target} {id : ClassId} {decl : ClassDecl}
  {m : MemberDecl}

lemma name (h : SeesAutoProperty s c o target id decl m) : Grammar.IsIdentifier m.name := by
  obtain ⟨initializer, hform⟩ := h.auto
  exact h.identified.2 m h.declared (by simp [MemberDecl.isNamed, hform])

lemma slot_eq (h : SeesAutoProperty s c o target id decl m) :
    m.isStatic = true ∧ target.slot id (decl.hiddenKey m) = .ofClass id (decl.hiddenKey m) ∨
      m.isStatic = false ∧ ∃ i, o = .instanceRef i ∧
        target.slot id (decl.hiddenKey m) = .ofInstance i (decl.hiddenKey m) := by
  have hside := h.side
  rcases Target.of_ofValue? h.receiver with ⟨i, start, rfl, -, rfl⟩ | ⟨start, rfl, rfl⟩
  · cases hstatic : m.isStatic with
    | true => simp [hstatic, Side.ofStatic] at hside
    | false => exact .inr ⟨rfl, i, rfl, rfl⟩
  · cases hstatic : m.isStatic with
    | true => exact .inl ⟨rfl, rfl⟩
    | false => simp [hstatic, Side.ofStatic] at hside

lemma slot_exists (h : SeesAutoProperty s c o target id decl m) :
    (target.slot id (decl.hiddenKey m)).Exists s := by
  obtain ⟨cls, hcls, hdescribes⟩ := h.described
  have hfield := hdescribes.hasField_hiddenKey h.declared h.auto
  rw [← h.side] at hfield
  rcases Target.of_ofValue? h.receiver with ⟨i, start, rfl, hstart, rfl⟩ | ⟨start, rfl, rfl⟩
  · obtain ⟨inst, hinst, -⟩ := Option.map_eq_some_iff.mp hstart
    exact ⟨inst, hinst⟩
  · exact ⟨cls, hcls, hfield⟩

/-- The accessors come to the slot of the class that declares the property, unless their search for it does
not end. -/
lemma resolve_hidden (h : SeesAutoProperty s c o target id decl m) (hs : s.Identified) :
    (∃ owner, (target.inside id).slot owner (decl.hiddenKey m) = target.slot id (decl.hiddenKey m) ∧
      ∀ c' : Context, c'.owner = some id → (resolve c' (target.inside id) (Class.hiddenName m.name)).run s =
        .ok (some (.field owner (decl.hiddenKey m))) s) ∨
    ∀ (t : State) (c' : Context), t.registry = s.registry → c'.owner = some id →
      (resolve c' (target.inside id) (Class.hiddenName m.name)).run t = .error .exhausted t := by
  obtain ⟨cls, hcls, hdescribes⟩ := h.described
  have hfield := hdescribes.hasField_hiddenKey h.declared h.auto
  have hname : cls.name = decl.name := hdescribes.name
  rw [← h.side, ClassDecl.hiddenKey, ← hname] at hfield
  have hresolve : ∀ owner, s.registry.search (some (id, cls.name)) (target.inside id).side
      (Class.hiddenName m.name) (target.inside id).start =
        .found (.field owner (Class.key .isPrivate cls.name (Class.hiddenName m.name))) →
      ∀ c' : Context, c'.owner = some id → (resolve c' (target.inside id) (Class.hiddenName m.name)).run s =
        .ok (some (.field owner (decl.hiddenKey m))) s := by
    intro owner hsearch c' howner
    have hcaller : c'.Caller s (some (id, cls.name)) := .inside howner hcls
    rw [hcaller.run_resolve, ClassDecl.hiddenKey, ← hname]
    simp [resolveFor, hsearch]
  rcases Target.of_ofValue? h.receiver with ⟨i, start, rfl, hstart, rfl⟩ | ⟨start, rfl, rfl⟩
  · have hresolved := resolved_run c ⟨start, .ofInstance, some (.instanceRef i)⟩ m.name s
    rw [h.resolves] at hresolved
    cases hresolved with
    | found hcaller hsearch =>
      have hcls' : s.registry.get? (Registry.Found.member id m.autoMember).owner = some cls := hcls
      rcases Registry.search_hidden (k := id) hs.cls h.name (hs.cls id cls hcls).name.colon_not_mem hcls'
        hfield hsearch with ⟨owner, hhidden⟩ | hendless
      · exact .inl ⟨owner, rfl, hresolve owner hhidden⟩
      · refine .inr fun t c' ht howner => ?_
        rw [← ht] at hcls hendless
        exact Context.Caller.run_resolve_endless (.inside howner hcls) hendless
  · exact .inl ⟨id, rfl, hresolve id (Registry.search_hidden_self hs.cls h.name hcls hfield)⟩

section Accessors

variable {owner : ClassId} (hfound : ∀ c' : Context, c'.owner = some id →
  (resolve c' (target.inside id) (Class.hiddenName m.name)).run s =
    .ok (some (.field owner (decl.hiddenKey m))) s)

include hfound

/-- Reading the property gives what is in the field that its accessors find. -/
lemma outcome_memberOf (h : SeesAutoProperty s c o target id decl m) (hready : s.Ready) :
    ∃ s', Outcome (fun ev => ev.memberOf c o m.name) s
        (.ok ((s.slot? ((target.inside id).slot owner (decl.hiddenKey m))).getD .null) s') ∧
      s.AddsScopes s' := by
  obtain ⟨cls, hcls, hdescribes⟩ := h.described
  obtain ⟨closure, horigin⟩ := hdescribes.origin
  obtain ⟨s', hcall, hadds⟩ := Evaluator.run_invoke_autoGetter closure 0
    (Target.ofValue?_inside h.receiver id) hfound hready
  refine ⟨s', ⟨nofun, 5, ?_⟩, hadds⟩
  rw [(Evaluator.Access.get h.receiver).run_eq, run_bind_ok h.resolves]
  exact (Evaluator.run_callMethod_script (c := c) hcls horigin).trans hcall

omit hfound in
/-- Assigning to the property, if it succeeds, has called the setter, with as many steps as one likes. -/
lemma exists_invoke_of_outcome_setMember (h : SeesAutoProperty s c o target id decl m)
    (hset : Outcome (fun ev => ev.setMember c o m.name v) s (.ok () s')) :
    ∃ n closure w, ((Evaluator.within (n + 6)).invoke (.method closure id target.receiver)
      (Draft.autoSetter m) [v]).run s = .ok w s' := by
  obtain ⟨cls, hcls, hdescribes⟩ := h.described
  obtain ⟨closure, horigin⟩ := hdescribes.origin
  obtain ⟨-, n, hrun⟩ := hset
  rw [(Evaluator.Access.set h.receiver).run_eq, run_bind_ok h.resolves] at hrun
  obtain ⟨w, _, hcall, ⟨⟩⟩ := run_bind_eq_ok.mp hrun
  rw [Evaluator.run_callMethod_script hcls horigin] at hcall
  -- With more steps at hand the call ends in the same way, and then all of its steps can be followed.
  exact ⟨n, closure, w, Evaluator.within_extended hcall nofun (Nat.le_add_right n 6)⟩

/-- It puts the value into this field. -/
lemma of_outcome_setMember (h : SeesAutoProperty s c o target id decl m)
    (hassign : s.services.operators.binary.get? "=" = some .assign)
    (hset : Outcome (fun ev => ev.setMember c o m.name v) s (.ok () s')) :
    s.Ready ∧ (s.put ((target.inside id).slot owner (decl.hiddenKey m)) v).AddsScopes s' := by
  obtain ⟨n, closure, w, hcall⟩ := h.exists_invoke_of_outcome_setMember hset
  exact Evaluator.of_run_invoke_autoSetter n (Target.ofValue?_inside h.receiver id) hfound hassign hcall

end Accessors

/-- The field that the accessors find if an assignment to the property succeeds. -/
lemma exists_field_of_outcome_setMember (h : SeesAutoProperty s c o target id decl m) (hs : s.Identified)
    (hassign : s.services.operators.binary.get? "=" = some .assign)
    (hset : Outcome (fun ev => ev.setMember c o m.name v) s (.ok () s')) :
    ∃ owner, (target.inside id).slot owner (decl.hiddenKey m) = target.slot id (decl.hiddenKey m) ∧
      ∀ c' : Context, c'.owner = some id → (resolve c' (target.inside id) (Class.hiddenName m.name)).run s =
        .ok (some (.field owner (decl.hiddenKey m))) s := by
  refine (h.resolve_hidden hs).resolve_right fun hendless => ?_
  obtain ⟨n, closure, w, hcall⟩ := h.exists_invoke_of_outcome_setMember hset
  exact Evaluator.not_endless_of_run_invoke_autoSetter n (Target.ofValue?_inside h.receiver id) hassign
    hendless hcall

/-- The name stands for the same property where a slot has another value. -/
lemma put (h : SeesAutoProperty s c o target id decl m) {slot : Slot} (hslot : slot.Exists s)
    (hadds : (s.put slot v).AddsScopes s') :
    s.registry.Revised s'.registry ∧ SeesAutoProperty s' c o target id decl m := by
  have hgrows := s.grows_put hslot v
  have hrevised : s.registry.Revised s'.registry := by
    obtain ⟨added, rfl⟩ := hadds
    exact s.revised_put hslot v
  refine ⟨hrevised, h.identified, h.declared, h.auto, ?_, ?_, h.side, resolve_of_revised hrevised h.resolves⟩
  · obtain ⟨cls, hcls, parent, d, draft, hdraft, hmade⟩ := h.described
    obtain ⟨cls', hcls', hsame⟩ := hrevised.cls hcls
    exact ⟨cls', hcls', parent, d, draft, hdraft, hmade.trans hsame⟩
  · have hheap : s'.heap = (s.put slot v).heap := by
      obtain ⟨added, rfl⟩ := hadds
      rfl
    rw [hheap]
    rcases Target.of_ofValue? h.receiver with ⟨i, start, rfl, hstart, rfl⟩ | ⟨start, rfl, rfl⟩
    · simp [Target.ofValue?, hgrows.classOf hstart]
    · rfl

end SeesAutoProperty

/-- **Properties with automatic accessors are hidden variables.**  Let classes and members be named by
identifiers, wherever they are declared, and let `=` assign.  Where the name of a property with automatic
accessors stands for this property, an assignment that succeeds changes one slot: a field of the class that
declares the property if it is static, and otherwise a field of the instance.  Apart from scopes that are left
behind nothing else changes.  Code that names a member by an identifier comes to this slot in no state, other
than through the accessors.  Reading the property in the same context after that succeeds, changes no slot, and
gives the value that was assigned. -/
theorem auto_properties_are_hidden_variables {s s' : State} (hs : Interpreter.Arises s)
    (hassign : s.services.operators.binary.get? "=" = some .assign) {c : Context} {o v : Value}
    {target : Target} {id : ClassId} {decl : ClassDecl} {m : MemberDecl}
    (h : SeesAutoProperty s c o target id decl m)
    (hset : Outcome (fun ev => ev.setMember c o m.name v) s (.ok () s')) :
    ∃ slot : Slot,
      (m.isStatic = true ∧ slot = .ofClass id (decl.hiddenKey m) ∨
        m.isStatic = false ∧ ∃ i, o = .instanceRef i ∧ slot = .ofInstance i (decl.hiddenKey m)) ∧
      s'.slot? = Function.update s.slot? slot (some v) ∧ (s.put slot v).AddsScopes s' ∧
      (∀ s₁, Interpreter.Arises s₁ → ∀ (self : Evaluator) (c₁ : Context) (target₁ : Target) (name : String),
        Grammar.IsIdentifier name → ∀ {α : Type} (act : Registry.Found → Exec α) (x : Exec α),
        self.Access c₁ target₁ name s₁ act x → (∃ e, x.run s₁ = .error e s₁) ∨
          ∃ found, ¬found.Reaches target₁ slot ∧ x.run s₁ = (act found).run s₁) ∧
      ∃ s'', Outcome (fun ev => ev.memberOf c o m.name) s' (.ok v s'') ∧ s'.AddsScopes s'' := by
  obtain ⟨owner, hslot, hfound⟩ := h.exists_field_of_outcome_setMember hs.identified hassign hset
  obtain ⟨hready, hadds⟩ := h.of_outcome_setMember hfound hassign hset
  rw [hslot] at hadds
  have hslots : s'.slot? = Function.update s.slot? (target.slot id (decl.hiddenKey m)) (some v) := by
    rw [hadds.slot?_eq, State.slot?_put h.slot_exists]
  refine ⟨_, h.slot_eq, hslots, hadds, ?_, ?_⟩
  · intro s₁ hs₁ self c₁ target₁ name hname α act x hx
    exact hx.misses_hidden hs₁.identified hname h.name h.identified.1.colon_not_mem (target.key_slot _ _)
  · obtain ⟨hrevised, h'⟩ := h.put h.slot_exists hadds
    obtain ⟨s'', hread, hadds'⟩ := h'.outcome_memberOf
      (fun c' hc' => resolve_of_revised hrevised (hfound c' hc')) ((hready.put _ v).addsScopes hadds)
    rw [hslot, hslots, Function.update_self] at hread
    exact ⟨s'', hread, hadds'⟩

/-- A property of a class itself, with automatic accessors. -/
def sharedProperty : MemberDecl :=
  ⟨"p", .isPublic, true, .property (some .auto) (some .auto) none, ⟨1, 20⟩⟩

/-- The class that declares it. -/
def sharingDecl : ClassDecl := ⟨"A", none, [sharedProperty], ⟨1, 10⟩⟩

/-- A class that extends this class. -/
def inheritingDecl : ClassDecl := ⟨"B", some ⟨⟨1, 10⟩, .classDecl sharingDecl⟩, [], ⟨1, 1⟩⟩

/-- A new interpreter in which both of them are declared. -/
def inheritingState : State :=
  ((Evaluator.within 4).perform (.evaluate Interpreter.root ⟨⟨1, 1⟩, .classDecl inheritingDecl⟩)).after
    newState

/-- What becomes of the first one. -/
def sharingClass (c : Context) : Class :=
  ⟨"A", none, .script c none, {}, .ofList [("p", sharedProperty.autoMember)], [],
    .ofList [(sharingDecl.hiddenKey sharedProperty, .null)]⟩

/-- What becomes of the second one. -/
def inheritingClass (c : Context) (parent : ClassId) : Class :=
  ⟨"B", some parent, .script c none, {}, {}, [], {}⟩

lemma after_evaluate_inheritingDecl (n : Nat) (c : Context) {s : State} (h : s.services.creator = .plain) :
    let s' := ((Evaluator.within (n + 2)).perform (.evaluate c ⟨⟨1, 1⟩, .classDecl inheritingDecl⟩)).after s
    s'.services = s.services ∧ s'.registry =
      ((s.registry.insert (sharingClass c)).2.insert (inheritingClass c ⟨s.registry.size⟩)).2 := by
  obtain ⟨config, ⟨creator, operators, naming⟩, scopes, heap, registry, output, depth, cancelled, turns⟩ := s
  cases h
  exact ⟨rfl, rfl⟩

lemma services_newState : newState.services = {} := Interpreter.services_of_start start_newState

lemma services_inheritingState : inheritingState.services = {} := by
  rw [inheritingState, (after_evaluate_inheritingDecl 2 Interpreter.root (by rw [services_newState])).1,
    services_newState]

lemma get?_inheritingState :
    inheritingState.registry.get? ⟨0⟩ = some (sharingClass Interpreter.root) ∧
      inheritingState.registry.get? ⟨1⟩ = some (inheritingClass Interpreter.root ⟨0⟩) := by
  have hcreator : newState.services.creator = .plain := by rw [services_newState]
  have hregistry := (after_evaluate_inheritingDecl 2 Interpreter.root hcreator).2
  rw [size_registry_newState] at hregistry
  have hfirst : (newState.registry.insert (sharingClass Interpreter.root)).2.get? ⟨0⟩ =
      some (sharingClass Interpreter.root) := by
    rw [Registry.get?_insert, size_registry_newState, if_pos rfl]
  have hsize : (newState.registry.insert (sharingClass Interpreter.root)).2.size = 1 := by
    simpa [Registry.insert, Registry.size] using size_registry_newState
  rw [inheritingState, hregistry]
  refine ⟨Registry.get?_insert_of_some hfirst _, ?_⟩
  rw [Registry.get?_insert, hsize, if_pos rfl]

/-- Code outside of classes that names the property of the second class comes to the first one. -/
lemma seesAutoProperty_inheritingState : SeesAutoProperty inheritingState Interpreter.root (.classRef ⟨1⟩)
    ⟨⟨1⟩, .ofClass, none⟩ ⟨0⟩ sharingDecl sharedProperty where
  identified := by decide +kernel
  declared := List.mem_singleton.mpr rfl
  auto := ⟨none, rfl⟩
  described := ⟨_, get?_inheritingState.1, none, Interpreter.root, _, rfl, .refl _⟩
  receiver := rfl
  side := rfl
  resolves := by
    have hcaller : Interpreter.root.Caller inheritingState none := .outside rfl
    have hsearch : inheritingState.registry.search none .ofClass "p" ⟨1⟩ =
        .found (.member ⟨0⟩ sharedProperty.autoMember) := by
      obtain ⟨hfirst, hsecond⟩ := get?_inheritingState
      have hsize : inheritingState.registry.size = 2 := by decide +kernel
      have hbelow : Registry.Found.inClass? ⟨1⟩ (inheritingClass Interpreter.root ⟨0⟩) .ofClass ["p"] =
          none := rfl
      have hparent : (inheritingClass Interpreter.root ⟨0⟩).parent = some ⟨0⟩ := rfl
      have habove : Registry.Found.inClass? ⟨0⟩ (sharingClass Interpreter.root) .ofClass ["p"] =
          some (.member ⟨0⟩ sharedProperty.autoMember) := rfl
      simp only [Registry.search, hsize, Registry.searchWithin, Registry.settles, Registry.visibleKeys,
        if_true, hsecond, hbelow, hparent, hfirst, habove]
    rw [hcaller.run_resolve]
    simp [resolveFor, sharedProperty, hsearch]

/-- The second class sets a field of the first one through the property, and gets back what it has set. -/
theorem auto_properties_are_hidden_variables_inherited :
    ∃ s', Interpreter.Arises inheritingState ∧
      inheritingState.services.operators.binary.get? "=" = some .assign ∧
      SeesAutoProperty inheritingState Interpreter.root (.classRef ⟨1⟩) ⟨⟨1⟩, .ofClass, none⟩ ⟨0⟩ sharingDecl
        sharedProperty ∧
      Outcome (fun ev => ev.setMember Interpreter.root (.classRef ⟨1⟩) "p" (.boolean true)) inheritingState
        (.ok () s') ∧
      s'.slot? = Function.update inheritingState.slot? (.ofClass ⟨0⟩ "A::<p>") (some (.boolean true)) ∧
      ∃ s'', Outcome (fun ev => ev.memberOf Interpreter.root (.classRef ⟨1⟩) "p") s'
        (.ok (.boolean true) s'') := by
  have harises : Interpreter.Arises inheritingState :=
    .performed 4 (.start start_newState) (Code.identified_of_identifiedTo 4 (by decide +kernel))
  have hassign : inheritingState.services.operators.binary.get? "=" = some .assign := by
    rw [services_inheritingState]
    rfl
  have hgives : ((Evaluator.within 12).setMember Interpreter.root (.classRef ⟨1⟩) "p" (.boolean true)).gives
      inheritingState (fun _ _ => True) = true := by decide +kernel
  obtain ⟨⟨⟩, s', hrun, -⟩ := Exec.exists_run_of_gives hgives
  have hset : Outcome (fun ev => ev.setMember Interpreter.root (.classRef ⟨1⟩) "p" (.boolean true))
      inheritingState (.ok () s') := ⟨nofun, 12, hrun⟩
  have h := seesAutoProperty_inheritingState
  obtain ⟨slot, hslot, hslots, -, -, s'', hread, -⟩ :=
    auto_properties_are_hidden_variables harises hassign h hset
  rcases hslot with ⟨-, rfl⟩ | ⟨hstatic, -⟩
  · exact ⟨s', harises, hassign, h, hset, hslots, s'', hread⟩
  · cases hstatic

end ScriptLang
