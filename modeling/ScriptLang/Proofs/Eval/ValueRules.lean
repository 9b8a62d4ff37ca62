/-
Evaluating, assigning, calling and constructing follow every regime.

There is one rule for each function of the evaluator that works on values.  It says under which
conditions the function may stand in the step of a task, and what its results are.
-/
import ScriptLang.Proofs.Eval.Regime

namespace ScriptLang

variable {α β : Type}

/-! ## Outcomes of effects -/

namespace Exec

variable (c : Context) (s : State)

lemma run_declare (name : String) (kind : BindingKind) (v : Value) :
    (declare c name kind v).run s =
      match s.services.naming.refusal? name with
      | some message => .error (.fault ⟨.native message, none⟩) s
      | none => .ok () (s.withScope c.scope
          ((s.scopeAt c.scope).declare (s.services.naming.keep name) kind v)) := by
  cases hrefusal : s.services.naming.refusal? name with
  | some message => simp [declare, hrefusal, fail]
  | none => simp [declare, hrefusal, scopeOf, keptName, setScope, State.withScope, State.scopeAt]

lemma run_classOf {id : ClassId} {cls : Class} {s : State} (h : s.registry.get? id = some cls) :
    (classOf id).run s = .ok cls s := by
  simp [classOf, h]

lemma run_classOf_none {id : ClassId} {s : State} (h : s.registry.get? id = none) :
    (classOf id).run s = .error (.fault ⟨.notAClass ("class #" ++ toString id.index), none⟩) s := by
  simp only [classOf, EStateM.run_bind, EStateM.run_get, h]
  rfl

/-- A name is found in one of the scopes, or there is a fault. -/
lemma run_lookupIn (name kept : String) (ids : List ScopeId) :
    (∃ v, (lookupIn name kept ids).run s = .ok v s ∧ s.Stores v) ∨
      ∃ f, (lookupIn name kept ids).run s = .error (.fault f) s := by
  induction ids with
  | nil => exact .inr ⟨_, rfl⟩
  | cons id ids ih =>
    have hscope : (scopeOf id).run s = .ok (s.scopeAt id) s := rfl
    simp only [lookupIn, run_bind_ok hscope, Scope.lookup]
    cases hget : (s.scopeAt id).bindings.get? kept with
    | none => exact ih
    | some binding =>
      obtain ⟨kind, value⟩ := binding
      cases value with
      | none => exact .inr ⟨_, rfl⟩
      | some v => exact .inl ⟨v, rfl, .binding hget⟩

/-- A name is assigned to in one of the scopes, or there is a fault. -/
lemma run_assignIn (name kept : String) (v : Value) (ids : List ScopeId) :
    (∃ id scope, id ∈ ids ∧ (s.scopeAt id).assign kept v = .ok (some scope) ∧
        (assignIn name kept v ids).run s = .ok () (s.withScope id scope)) ∨
      ∃ f, (assignIn name kept v ids).run s = .error (.fault f) s := by
  induction ids with
  | nil => exact .inr ⟨_, rfl⟩
  | cons id ids ih =>
    have hscope : (scopeOf id).run s = .ok (s.scopeAt id) s := rfl
    simp only [assignIn, run_bind_ok hscope]
    cases hassign : (s.scopeAt id).assign kept v with
    | error cause => exact .inr ⟨_, rfl⟩
    | ok result =>
      cases result with
      | some scope => exact .inl ⟨id, scope, List.mem_cons_self, hassign, rfl⟩
      | none =>
        rcases ih with ⟨id', scope, hmem, h, hrun⟩ | ⟨f, hrun⟩
        · exact .inl ⟨id', scope, List.mem_cons_of_mem id hmem, h, hrun⟩
        · exact .inr ⟨f, hrun⟩

end Exec

/-- Looking for a member is looking for it for the class of the running code. -/
lemma Context.Caller.run_resolve {c : Context} {s : State} {caller : Option (ClassId × String)}
    (h : c.Caller s caller) (target : Target) (name : String) :
    (resolve c target name).run s = (resolveFor caller target name).run s := by
  unfold resolve
  cases h with
  | outside howner =>
    rw [howner]
    rfl
  | inside howner hcls =>
    rw [howner]
    exact run_bind_ok (Exec.run_classOf hcls)

lemma Context.Caller.run_resolve_endless {c : Context} {s : State} {caller : Option (ClassId × String)}
    (h : c.Caller s caller) {target : Target} {name : String}
    (hsearch : s.registry.search caller target.side name target.start = .endless) :
    (resolve c target name).run s = .error .exhausted s := by
  rw [h.run_resolve]
  simp only [resolveFor, EStateM.run_bind, EStateM.run_get]
  rw [hsearch]
  rfl

/-- How looking for a member ends. -/
inductive Resolved (c : Context) (target : Target) (name : String) (s : State) :
    EStateM.Result Halt State (Option Registry.Found) → Prop
  | failed {f} : Resolved c target name s (.error (.fault f) s)
  | absent : Resolved c target name s (.ok none s)
  | found {caller found} : c.Caller s caller →
      s.registry.search caller target.side name target.start = .found found →
      Resolved c target name s (.ok (some found) s)
  | endless {caller} : s.registry.search caller target.side name target.start = .endless →
      Resolved c target name s (.error .exhausted s)

/-- Looking for a member leaves the state as it is, and what is found is found for the class of the
running code. -/
lemma resolved_run (c : Context) (target : Target) (name : String) (s : State) :
    Resolved c target name s ((resolve c target name).run s) := by
  have hfor : ∀ caller, c.Caller s caller →
      Resolved c target name s ((resolve c target name).run s) := by
    intro caller hcaller
    rw [hcaller.run_resolve]
    simp only [resolveFor, EStateM.run_bind, EStateM.run_get]
    cases hsearch : s.registry.search caller target.side name target.start with
    | found found => exact .found hcaller hsearch
    | absent => exact .absent
    | unregistered id => exact .failed
    | endless => exact .endless hsearch
  cases howner : c.owner with
  | none => exact hfor none (.outside howner)
  | some id =>
    cases hcls : s.registry.get? id with
    | some cls => exact hfor (some (id, cls.name)) (.inside howner hcls)
    | none =>
      rw [resolve, howner]
      dsimp only
      rw [run_bind_error (Exec.run_classOf_none hcls)]
      exact .failed

/-- Members are looked for on an instance or on a class. -/
lemma Target.Open.receiver {V : Value → Prop} {c : Context} {s : State} {target : Target}
    (h : target.Open V c s) :
    (∃ i, target.side = .ofInstance ∧ target.receiver = some (.instanceRef i)) ∨
      target.side = .ofClass ∧ target.receiver = none := by
  cases h with
  | @value w target _ hw =>
    cases w with
    | instanceRef i =>
      obtain ⟨id, -, rfl⟩ := Option.map_eq_some_iff.mp hw
      exact .inl ⟨i, rfl, rfl⟩
    | classRef id =>
      cases hw
      exact .inr ⟨rfl, rfl⟩
    | _ => cases hw
  | super =>
    unfold Context.superTarget
    split
    · exact .inl ⟨_, rfl, rfl⟩
    · exact .inr ⟨rfl, rfl⟩

namespace Obeys

variable {R : Regime} {n : Nat} {t : Task} {s₀ s : State} {Q : α → State → Prop} {c : Context}

/-! ## Values -/

lemma sound_of_isLiteral {v : Value} (h : v.IsLiteral) : R.Sound v s := by
  obtain ⟨l, rfl⟩ := h
  refine Bounds.sound_of_ne fun id => ?_
  cases l <;> exact nofun

lemma sound_literal (creator : Creator) (l : Literal) : R.Sound (creator.literal l) s :=
  sound_of_isLiteral ⟨_, rfl⟩

lemma sound_getD {v : Option Value} (h : ∀ w ∈ v, R.Sound w s) : R.Sound (v.getD .null) s := by
  cases v with
  | none => exact Bounds.sound_of_ne nofun
  | some w => exact h w rfl

lemma sound_receiver {V : Value → Prop} {target : Target} (h : target.Open V c s) :
    ∀ v ∈ target.receiver, R.Sound v s := by
  intro v hv
  rcases h.receiver with ⟨i, -, hr⟩ | ⟨-, hr⟩
  · rw [hr] at hv
    cases hv
    exact Bounds.sound_of_ne nofun
  · rw [hr] at hv
    cases hv

lemma nullValue : Obeys R n t s₀ (fun _ => Exec.nullValue) s R.Sound :=
  .const fun hs => ⟨R.kept_of_inside hs, sound_literal _ _⟩

lemma lookup (name : String) : Obeys R n t s₀ (fun _ => Exec.lookup c name) s R.Sound := by
  refine .const fun hs => ?_
  have hrun : (Exec.lookup c name).run s =
      (Exec.lookupIn name (s.services.naming.keep name) c.scopes).run s := rfl
  rw [hrun]
  rcases Exec.run_lookupIn s name (s.services.naming.keep name) c.scopes with ⟨v, hv, hstored⟩ | ⟨f, hf⟩
  · rw [hv]
    exact ⟨R.kept_of_inside hs, R.stored (R.good_of_inside hs) hstored⟩
  · rw [hf]
    exact ⟨R.near (R.kept_of_inside hs), nofun⟩

lemma ofExcept {x : Except Cause α} (h : ∀ a, x = .ok a → Q a s) :
    Obeys R n t s₀ (fun _ => Exec.ofExcept x) s Q := by
  cases x with
  | ok a => exact .pure (h a rfl)
  | error cause => exact .fail

/-- A result of a function that needs no state is known in what follows. -/
lemma ofExcept_bind {x : Except Cause β} {k : β → Evaluator → Exec α}
    (h : ∀ b, x = .ok b → Obeys R n t s₀ (k b) s Q) :
    Obeys R n t s₀ (fun ev => Exec.ofExcept x >>= fun b => k b ev) s Q := by
  cases x with
  | ok b => exact (h b rfl).congr (fun _ => rfl) fun _ => rfl
  | error cause => exact .failed (f := ⟨cause, none⟩) rfl

/-! ## Effects -/

lemma newArray {items : List Value} (h : ∀ v ∈ items, R.Sound v s) :
    Obeys R n t s₀ (fun _ => Exec.newArray items) s R.Sound :=
  .effect rfl (fun hs => R.change hs (.array h)) (Bounds.sound_of_ne nofun)

lemma newObject {properties : List (String × Value)} (h : ∀ p ∈ properties, R.Sound p.2 s) :
    Obeys R n t s₀ (fun _ => Exec.newObject properties) s R.Sound :=
  .effect rfl (fun hs => R.change hs (.object h)) (Bounds.sound_of_ne nofun)

lemma newClosure {decl : FunctionDecl} (h : t.MakesFunction c decl) :
    Obeys R n t s₀ (fun _ => Exec.newFunction (.script decl c)) s R.Sound :=
  .effect rfl (fun hs => R.change hs (.closure h)) (Bounds.sound_of_ne nofun)

lemma declare {name : String} {kind : BindingKind} {v : Value}
    (h : Change R.Kept R.Sound t s₀ s (s.withScope c.scope
      ((s.scopeAt c.scope).declare (s.services.naming.keep name) kind v))) :
    Obeys R n t s₀ (fun _ => Exec.declare c name kind v) s fun _ _ => True := by
  cases hrefusal : s.services.naming.refusal? name with
  | some message => exact .fault (by rw [Exec.run_declare, hrefusal])
  | none => exact .effect (by rw [Exec.run_declare, hrefusal]) (fun hs => R.change hs h) trivial

lemma newBlock (flow : BlockFlow) :
    Obeys R n t s₀ (fun _ => Exec.newBlock c flow) s fun block s' =>
      block = .block ⟨s.scopes.size⟩ flow c ∧ s' = s.opened :=
  .effect rfl (fun hs => R.opened (R.good_of_inside hs)) ⟨rfl, rfl⟩

lemma newMethodContext (owner : ClassId) (receiver : Option Value) :
    Obeys R n t s₀ (fun _ => Exec.newMethodContext c owner receiver) s fun context _ =>
      context = .method ⟨s.scopes.size⟩ c owner receiver :=
  .effect rfl (fun hs => R.opened (R.good_of_inside hs)) rfl

lemma modifyHeap {f : Heap → Heap} {P : State → Prop}
    (h : Change R.Kept R.Sound t s₀ s (s.withHeap (f s.heap))) (hP : P (s.withHeap (f s.heap))) :
    Obeys R n t s₀ (fun _ => Exec.modifyHeap f) s fun _ => P :=
  .effect rfl (fun hs => R.change hs h) hP

lemma setStaticField {id : ClassId} {key : String} {v : Value}
    (h : Change R.Kept R.Sound t s₀ s
      (s.withRegistry (s.registry.modify id (·.setField key v)))) :
    Obeys R n t s₀ (fun _ => Exec.setStaticField id key v) s fun _ _ => True :=
  .effect rfl (fun hs => R.change hs h) trivial

/-! ## Questions -/

lemma evaluate {e : Expr} (h : t.Evaluates s₀ c e) :
    Obeys R n t s₀ (fun ev => ev.evaluate c e) s R.Sound :=
  .ask (.evaluate h)

lemma assign {e : Expr} {v : Value} (h : t.Assigns c e) (hv : R.Sound v s) :
    Obeys R n t s₀ (fun ev => ev.assign c e v) s fun _ _ => True :=
  .ask (.assign h hv)

lemma evaluateAll {es : List Expr} (h : ∀ e ∈ es, t.Evaluates s₀ c e) :
    Obeys R n t s₀ (fun ev => ev.evaluateAll c es) s fun vs s' => ∀ v ∈ vs, R.Sound v s' := by
  induction es generalizing s with
  | nil => exact .pure (by simp)
  | cons e es ih =>
    refine .bind (evaluate (h e List.mem_cons_self)) fun v s₁ _ hv => ?_
    refine .bind (ih fun e' he' => h e' (List.mem_cons_of_mem e he')) fun vs s₂ hkept hvs => .pure ?_
    intro w hw
    rcases List.mem_cons.mp hw with rfl | hw
    · exact R.sound_of_kept hkept hv
    · exact hvs w hw

/-! ## Calls -/

section Parameters

variable (hcall : t.isCall = true) (hscope : c.scope = ⟨s₀.scopes.size⟩)

include hcall hscope

lemma declareParameter {name : String} {v : Value} (hv : R.Sound v s) :
    Obeys R n t s₀ (fun _ => Exec.declare c name .parameter v) s fun _ _ => True :=
  declare (.parameter hcall hscope hv)

lemma bindEach (decl : FunctionDecl) (got : Nat) {ps : List Parameter} {args : List Value}
    (hdefault : ∀ p ∈ ps, ∀ e, p.default = some e → t.Evaluates s₀ c e)
    (hargs : ∀ v ∈ args, R.Sound v s) :
    Obeys R n t s₀ (fun ev => ev.bindEach c decl got ps args) s fun _ _ => True := by
  induction ps generalizing args s with
  | nil => exact .pure trivial
  | cons p ps ih =>
    have hps : ∀ p' ∈ ps, ∀ e, p'.default = some e → t.Evaluates s₀ c e :=
      fun p' hp' => hdefault p' (List.mem_cons_of_mem p hp')
    have hrest : ∀ v s', R.Sound v s' → ∀ rest, (∀ w ∈ rest, R.Sound w s') →
        Obeys R n t s₀ (fun ev => do
          Exec.declare c p.name .parameter v
          ev.bindEach c decl got ps rest) s' fun _ _ => True := by
      intro v s' hv rest hrest
      refine .bind (declareParameter hcall hscope hv) fun _ s'' hkept _ => ih hps ?_
      exact fun w hw => R.sound_of_kept hkept (hrest w hw)
    cases args with
    | cons arg args =>
      exact hrest arg s (hargs arg List.mem_cons_self) args fun w hw =>
        hargs w (List.mem_cons_of_mem arg hw)
    | nil =>
      simp only [Evaluator.bindEach]
      cases hp : p.default with
      | some e =>
        refine .bind (evaluate (hdefault p List.mem_cons_self e hp)) fun v s' _ hv => ?_
        exact hrest v s' hv [] (by simp)
      | none =>
        refine .ite (fun _ => ?_) fun _ => ?_
        · exact .bind nullValue fun v s' _ hv => hrest v s' hv [] (by simp)
        · exact .bind (P := R.Sound) .fail fun v s' _ hv => hrest v s' hv [] (by simp)

lemma bindParameters (decl : FunctionDecl) {args : List Value}
    (hdefault : ∀ p ∈ decl.parameters, ∀ e, p.default = some e → t.Evaluates s₀ c e)
    (hargs : ∀ v ∈ args, R.Sound v s) :
    Obeys R n t s₀ (fun ev => ev.bindParameters c decl args) s fun _ _ => True := by
  simp only [Evaluator.bindParameters]
  refine .ite (fun _ => ?_) fun _ => bindEach hcall hscope decl _ hdefault hargs
  refine .bind (P := fun _ _ => True) .fail fun _ s' hkept _ => ?_
  exact bindEach hcall hscope decl _ hdefault fun v hv => R.sound_of_kept hkept (hargs v hv)

end Parameters

lemma callMethod (hc : t.home = some c) {owner : ClassId} {m : Method} {receiver : Option Value}
    {args : List Value} (h : Callable (R.Sound · s) c s owner m receiver)
    (hreceiver : ∀ v ∈ receiver, R.Sound v s) (hargs : ∀ v ∈ args, R.Sound v s) :
    Obeys R n t s₀ (fun ev => ev.callMethod c owner m receiver args) s R.Sound := by
  cases m with
  | host f => exact .ask (.called hc (.hostMethod h hreceiver hargs))
  | script decl =>
    unfold Evaluator.callMethod
    cases hcls : s.registry.get? owner with
    | none => exact .failed (Exec.run_classOf_none hcls)
    | some cls =>
      refine .read (Exec.run_classOf hcls) ?_
      cases horigin : cls.origin with
      | host constructor => exact .fail
      | script closure constructor =>
        exact .ask (.called hc (.method h hcls horigin hreceiver hargs))

lemma callValue (hc : t.home = some c) {callee : Value} {args : List Value}
    (hargs : ∀ v ∈ args, R.Sound v s) :
    Obeys R n t s₀ (fun ev => ev.callValue c callee args) s R.Sound := by
  refine .inside fun hs => .read (b := s) rfl ?_
  cases hf : s.heap.callee? callee with
  | none => exact .fail
  | some f =>
    have hfunction : ∃ id, s.heap.function? id = some f := by
      cases callee with
      | function id => exact ⟨id, hf⟩
      | _ => cases hf
    obtain ⟨id, hid⟩ := hfunction
    cases f with
    | script decl closure => exact .ask (.called hc (.function hid hargs))
    | host f => exact .ask (.called hc (.hostFunction hid hargs))
    | bound owner m receiver =>
      refine callMethod hc (.taken hid) (fun v hv => ?_) hargs
      cases hv
      exact R.stored (R.good_of_inside hs) (.receiver hid)

/-! ## Functions of the host -/

section Hosts

variable {f : HostFunction} {call : HostCall}

/-- A request may be made with values that may be used, and so may the values of the answer. -/
lemma answer {request : HostRequest} (hasks : f.Asks request)
    (hvalues : ∀ v ∈ request.values, R.Sound v s) :
    Obeys R n (.host f call) s₀ (fun ev => ev.answer call request) s fun a s' =>
      ∀ v ∈ request.answered a, R.Sound v s' := by
  have hone : ∀ {m : Evaluator → Exec Value}, Obeys R n (.host f call) s₀ m s R.Sound →
      Obeys R n (.host f call) s₀ m s fun a s' => ∀ v ∈ [a], R.Sound v s' :=
    fun h => h.weaken fun a s' _ ha v hv => List.mem_singleton.mp hv ▸ ha
  have hnone : ∀ {β : Type} {m : Evaluator → Exec β},
      Obeys R n (.host f call) s₀ m s (fun _ _ => True) →
      Obeys R n (.host f call) s₀ m s fun _ s' => ∀ v ∈ ([] : List Value), R.Sound v s' :=
    fun h => h.weaken fun _ _ _ _ => List.forall_mem_nil _
  have hstored : R.Inside n (.host f call) s₀ s → ∀ v, s.Stores v → R.Sound v s := fun hs v hv =>
    R.stored (R.good_of_inside hs) hv
  cases request with
  | call callee args =>
    exact hone (.ask (.callBack hasks (hvalues callee List.mem_cons_self) fun v hv =>
      hvalues v (List.mem_cons_of_mem callee hv)))
  | construct id args =>
    exact hone (.construct (.host ⟨id, args, hasks⟩) (hvalues _ List.mem_cons_self) fun v hv =>
      hvalues v (List.mem_cons_of_mem _ hv))
  | getMember target name => exact hone (.ask (.memberForHost hasks (hvalues target List.mem_cons_self)))
  | lookup name => exact hone (lookup name)
  | newArray items => exact hone (newArray hvalues)
  | newObject properties =>
    exact hone (newObject fun p hp => hvalues p.2 (List.mem_map_of_mem hp))
  | getItems id =>
    refine .inside fun hs => .read (b := s) rfl (.pure fun v hv => ?_)
    have hmem : v ∈ s.heap.array id := Array.mem_toList_iff.mp hv
    exact hstored hs v (.element hmem)
  | setItems id items =>
    refine hnone (m := fun _ => Exec.modifyHeap (·.modifyArray id fun _ => items.toArray)) ?_
    refine modifyHeap (P := fun _ => True) (.element fun _ v hv => .inr (hvalues v ?_)) trivial
    exact List.mem_toArray.mp hv
  | getProperty id key =>
    exact .inside fun hs => .read (b := s) rfl (.pure fun v hv =>
      hstored hs v (.property (Option.mem_toList.mp hv)))
  | setProperty id key value =>
    refine hnone (m := fun _ => Exec.modifyHeap (·.setProperty id key value)) ?_
    exact modifyHeap (P := fun _ => True) (.property (hvalues value List.mem_cons_self)) trivial
  | getField id key =>
    exact .inside fun hs => .read (b := s) rfl (.pure fun v hv =>
      hstored hs v (.field (Option.mem_toList.mp hv)))
  | setField id key value =>
    refine hnone (m := fun _ => Exec.modifyHeap (·.setField id key value)) ?_
    exact modifyHeap (P := fun _ => True) (.fieldOfHost hasks (hvalues value List.mem_cons_self)) trivial
  | getNames | className | config | display => exact hnone (.read (b := s) rfl (.pure trivial))
  | print line => exact hnone (.effect rfl (fun hs => R.change hs .printed) trivial)
  | cancel => exact hnone (.effect rfl (fun hs => R.change hs (.cancelled hasks)) trivial)

/-- Code of a function of the host follows the regime if it refers to classes that may be used. -/
lemma follow {code : HostCode} (hasks : ∀ request, code.Asks request → f.Asks request)
    (hhandles : ∀ cause, code.Handles cause → f.Handles cause)
    (hbrings : ∀ id, code.Brings id → R.Knows s.registry id) :
    Obeys R n (.host f call) s₀ (fun ev => ev.follow call code) s R.Sound := by
  induction code generalizing s with
  | give value =>
    refine .pure fun id hid => ?_
    subst hid
    exact hbrings id .give
  | fail fault => exact .fault rfl
  | ask request next ih =>
    have hanswer : Obeys R n (.host f call) s₀ (fun ev => ev.answer call request) s _ :=
      answer (hasks request .here) fun v hv id hid => hbrings id (.here (hid ▸ hv))
    have hnext : ∀ outcome s', R.Kept s s' →
        (∀ a, outcome = .ok a → ∀ v ∈ request.answered a, R.Sound v s') →
        Obeys R n (.host f call) s₀ (fun ev => ev.follow call (next outcome)) s' R.Sound := by
      intro outcome s' hkept hgiven
      refine ih outcome (fun request' h => hasks request' (.later h))
        (fun cause h => hhandles cause (.later h)) fun id hid => ?_
      by_cases hnew : ∀ a, outcome = .ok a → .classRef id ∉ request.answered a
      · exact R.knows hkept (hbrings id (.later hnew hid))
      · simp only [not_forall, not_not] at hnew
        obtain ⟨a, ha, hmem⟩ := hnew
        exact hgiven a ha _ hmem id rfl
    by_cases hrelays : ∀ fault, next (.error fault) = .fail fault
    · -- Faults are handed on, so the code stops where the request fails.
      have hbind : Obeys R n (.host f call) s₀ (fun ev => ev.answer call request >>= fun a =>
          ev.follow call (next (.ok a))) s R.Sound :=
        .bind hanswer fun a s' hkept ha => hnext (.ok a) s' hkept fun b hb => Except.ok.inj hb ▸ ha
      refine hbind.congr (fun ev => ?_) fun ev => ?_
      all_goals
        refine Exec.run_attempt_bind (k := fun outcome => ev.follow call (next outcome)) fun fault => ?_
        rw [hrelays fault]
        rfl
    · obtain ⟨fault, hne⟩ := not_forall.mp hrelays
      have hnot : ¬f.Relays := fun h => h fault.cause (hhandles fault.cause (.here hne))
      refine .bind (.attempt hanswer fun hs s' hnear => R.handled hs hnot hnear) ?_
      exact fun outcome s' hkept hgiven => hnext outcome s' hkept hgiven

end Hosts

lemma runHost (f : HostFunction) (call : HostCall) :
    Obeys R n (.host f call) s₀ (fun ev => ev.runHost f call) s R.Sound := by
  have hrun : Exec.takeTurn.run s = .ok s.turns s.turned := rfl
  have hturn : Obeys R n (.host f call) s₀ (fun _ => Exec.takeTurn) s fun _ _ => True :=
    .effect hrun (fun hs => R.change hs .turned) trivial
  refine .bind hturn fun turn s' _ _ => .inside fun hs => ?_
  refine follow (fun request h => ⟨turn, call, h⟩) (fun cause h => ⟨turn, call, h⟩) fun id hid => ?_
  by_cases hgiven : .classRef id ∈ call.values
  · exact R.sound_of_mem_values hs hgiven id rfl
  · refine R.knows hs.kept ?_
    rw [Task.registry_inside]
    exact R.brought hs.start hs.does ⟨turn, call, hgiven, hid⟩

lemma callHost (f : HostFunction) (request : HostCall) :
    Obeys R n (.host f request) s₀ (fun ev => ev.callHost f request) s R.Sound := by
  unfold Evaluator.callHost
  cases f.arity with
  | none => exact runHost f request
  | some k => exact .ite (fun _ => runHost f request) fun _ => .fail

/-! ## Members of classes -/

lemma ofSuper (c : Context) :
    Obeys R n t s₀ (fun _ => Target.ofSuper c) s fun target s' =>
      s' = s ∧ target.Open (R.Sound · s) c s := by
  unfold Target.ofSuper
  cases howner : c.owner with
  | none => exact .fail
  | some owner =>
    cases hcls : s.registry.get? owner with
    | none => exact .failed (Exec.run_classOf_none hcls)
    | some cls =>
      refine .read (Exec.run_classOf hcls) ?_
      cases hparent : cls.parent with
      | none => exact .fail
      | some parent =>
        have hopen : (c.superTarget parent).Open (R.Sound · s) c s := .super howner hcls hparent
        unfold Context.superTarget at hopen
        dsimp only
        split <;> rename_i hthis <;> simp only [hthis] at hopen <;> exact .pure ⟨rfl, hopen⟩

/-- Looking for a member leaves the state as it is. -/
lemma resolve_bind {target : Target} {name : String} {k : Option Registry.Found → Evaluator → Exec α}
    (htarget : target.Open (R.Sound · s) c s) (hnone : Obeys R n t s₀ (k none) s Q)
    (hsome : ∀ found, Sees (R.Sound · s) c s target name found → Obeys R n t s₀ (k (some found)) s Q) :
    Obeys R n t s₀ (fun ev => resolve c target name >>= fun found => k found ev) s Q := by
  have hresolved := resolved_run c target name s
  generalize hrun : (ScriptLang.resolve c target name).run s = outcome at hresolved
  cases hresolved with
  | failed => exact .failed hrun
  | absent => exact .read hrun hnone
  | found hcaller hsearch => exact .read hrun (hsome _ ⟨htarget, _, hcaller, hsearch⟩)
  | endless hsearch =>
    have hthrow : Obeys R n t s₀ (fun _ => throw .exhausted) s Q :=
      .exhausted fun hs => R.endless (R.good_of_inside hs) hsearch
    exact hthrow.congr (fun _ => run_bind_error hrun) fun _ => run_bind_error hrun

lemma readField (target : Target) (owner : ClassId) (key : String) :
    Obeys R n t s₀ (fun _ => readField target owner key) s R.Sound := by
  refine .inside fun hs => .read (b := s) rfl ?_
  have hgood := R.good_of_inside hs
  split
  · exact .pure (sound_getD fun v hv => R.stored hgood (.field hv))
  · refine .pure (sound_getD fun v hv => ?_)
    obtain ⟨cls, hcls, hget⟩ := Option.bind_eq_some_iff.mp hv
    exact R.stored hgood (.static hcls hget)

lemma writeField (hc : t.home = some c) {target : Target} {name : String} {owner : ClassId}
    {key : String} {v : Value} (h : Sees (R.Sound · s) c s target name (.field owner key))
    (hv : R.Sound v s) :
    Obeys R n t s₀ (fun _ => writeField target owner key v) s fun _ _ => True := by
  rcases h.isOpen.receiver with ⟨i, hside, hr⟩ | ⟨hside, hr⟩
  · simp only [ScriptLang.writeField, hside, hr]
    exact modifyHeap (P := fun _ => True) (.fieldWritten hc h hr hside hv) trivial
  · simp only [ScriptLang.writeField, hside, hr]
    exact setStaticField (.staticWritten hc h hside hv)

section Members

variable (hc : t.home = some c)

include hc

lemma getClassMember {target : Target} (name : String) (h : target.Open (R.Sound · s) c s) :
    Obeys R n t s₀ (fun ev => ev.getClassMember c target name) s R.Sound := by
  have hreceiver := sound_receiver (R := R) h
  refine resolve_bind h .fail fun found hfound => ?_
  cases found with
  | field owner key => exact readField target owner key
  | member owner m =>
    cases m with
    | method m =>
      exact .effect rfl (fun hs => R.change hs (.taken hc hfound hreceiver)) (Bounds.sound_of_ne nofun)
    | property getter setter =>
      cases getter with
      | none => exact .fail
      | some getter =>
        exact callMethod hc (.accessor hfound (by simp [Member.accessors])) hreceiver (by simp)
    | indexer => exact .fail

lemma setClassMember {target : Target} (name : String) {value : Value}
    (h : target.Open (R.Sound · s) c s) (hvalue : R.Sound value s) :
    Obeys R n t s₀ (fun ev => ev.setClassMember c target name value) s fun _ _ => True := by
  have hreceiver := sound_receiver (R := R) h
  refine resolve_bind h .fail fun found hfound => ?_
  cases found with
  | field owner key => exact writeField hc hfound hvalue
  | member owner m =>
    cases m with
    | method | indexer => exact .fail
    | property getter setter =>
      cases setter with
      | none => exact .fail
      | some setter =>
        have hcallable : Callable (R.Sound · s) c s owner setter target.receiver :=
          .accessor hfound (by simp [Member.accessors])
        exact .bind (callMethod hc hcallable hreceiver (by simpa using hvalue))
          fun _ _ _ _ => .pure trivial

omit hc in
lemma findIndexer {target : Target} (h : target.Open (R.Sound · s) c s) :
    Obeys R n t s₀ (fun _ => Evaluator.findIndexer c target) s fun r s' => s' = s ∧
      Sees (R.Sound · s) c s target MemberDecl.indexerName (.member r.1 (.indexer r.2.1 r.2.2)) := by
  refine resolve_bind h (.read (b := s) rfl .fail) fun found hfound => ?_
  cases found with
  | field owner key => exact .read (b := s) rfl .fail
  | member owner m =>
    cases m with
    | method | property => exact .read (b := s) rfl .fail
    | indexer getter setter => exact .pure ⟨rfl, hfound⟩

lemma getClassItem {target : Target} {args : List Value} (h : target.Open (R.Sound · s) c s)
    (hargs : ∀ v ∈ args, R.Sound v s) :
    Obeys R n t s₀ (fun ev => ev.getClassItem c target args) s R.Sound := by
  have hreceiver := sound_receiver (R := R) h
  refine .bind (findIndexer h) fun r s' _ hr => ?_
  obtain ⟨owner, getter, setter⟩ := r
  obtain ⟨rfl, hfound⟩ := hr
  cases getter with
  | none => exact .fail
  | some getter =>
    exact callMethod hc (.accessor hfound (by simp [Member.accessors])) hreceiver hargs

lemma setClassItem {target : Target} {args : List Value} {value : Value}
    (h : target.Open (R.Sound · s) c s) (hargs : ∀ v ∈ args, R.Sound v s)
    (hvalue : R.Sound value s) :
    Obeys R n t s₀ (fun ev => ev.setClassItem c target args value) s fun _ _ => True := by
  have hreceiver := sound_receiver (R := R) h
  refine .bind (findIndexer h) fun r s' _ hr => ?_
  obtain ⟨owner, getter, setter⟩ := r
  obtain ⟨rfl, hfound⟩ := hr
  cases setter with
  | none => exact .fail
  | some setter =>
    have hcallable : Callable (R.Sound · s') c s' owner setter target.receiver :=
      .accessor hfound (by simp [Member.accessors])
    refine .bind (callMethod hc hcallable hreceiver fun v hv => ?_) fun _ _ _ _ => .pure trivial
    rcases List.mem_append.mp hv with hv | hv
    · exact hargs v hv
    · rwa [List.mem_singleton.mp hv]

lemma memberOf {v : Value} (name : String) (hv : R.Sound v s) :
    Obeys R n t s₀ (fun ev => ev.memberOf c v name) s R.Sound := by
  refine .inside fun hs => .read (b := s) rfl ?_
  dsimp only
  cases htarget : Target.ofValue? s.heap v with
  | some target => exact getClassMember hc name (.value hv htarget)
  | none =>
    cases v with
    | object id => exact .pure (sound_getD fun w hw => R.stored (R.good_of_inside hs) (.property hw))
    | array | text => exact .ite (fun _ => .pure (Bounds.sound_of_ne nofun)) fun _ => .fail
    | _ => exact .fail

lemma setMember {v value : Value} (name : String) (hv : R.Sound v s) (hvalue : R.Sound value s) :
    Obeys R n t s₀ (fun ev => ev.setMember c v name value) s fun _ _ => True := by
  refine .read (b := s) rfl ?_
  dsimp only
  cases htarget : Target.ofValue? s.heap v with
  | some target => exact setClassMember hc name (.value hv htarget) hvalue
  | none =>
    cases v with
    | object id => exact modifyHeap (P := fun _ => True) (.property hvalue) trivial
    | _ => exact .fail

lemma getItem {v : Value} {args : List Value} (hv : R.Sound v s) (hargs : ∀ w ∈ args, R.Sound w s) :
    Obeys R n t s₀ (fun ev => ev.getItem c v args) s R.Sound := by
  refine .inside fun hs => .read (b := s) rfl ?_
  dsimp only
  cases htarget : Target.ofValue? s.heap v with
  | some target => exact getClassItem hc (.value hv htarget) hargs
  | none =>
    cases v with
    | object id =>
      refine ofExcept_bind fun key _ => .pure (sound_getD fun w hw => ?_)
      exact R.stored (R.good_of_inside hs) (.property hw)
    | array id =>
      refine ofExcept_bind fun index _ => ?_
      cases hitem : (s.heap.array id)[index]? with
      | none => exact .fail
      | some item =>
        exact .pure (R.stored (R.good_of_inside hs) (.element (Array.mem_of_getElem? hitem)))
    | text content =>
      refine ofExcept_bind fun index _ => ?_
      cases content.toList[index]? with
      | none => exact .fail
      | some ch => exact .pure (Bounds.sound_of_ne nofun)
    | _ => exact .fail

lemma setItem {v value : Value} {args : List Value} (hv : R.Sound v s)
    (hargs : ∀ w ∈ args, R.Sound w s) (hvalue : R.Sound value s) :
    Obeys R n t s₀ (fun ev => ev.setItem c v args value) s fun _ _ => True := by
  refine .read (b := s) rfl ?_
  dsimp only
  cases htarget : Target.ofValue? s.heap v with
  | some target => exact setClassItem hc (.value hv htarget) hargs hvalue
  | none =>
    cases v with
    | object id =>
      exact ofExcept_bind fun key _ => modifyHeap (P := fun _ => True) (.property hvalue) trivial
    | array id =>
      refine ofExcept_bind fun index _ => .ite (fun _ => ?_) fun _ => .ite (fun _ => ?_) fun _ => .fail
      · refine modifyHeap (P := fun _ => True) (.element fun items w hw => ?_) trivial
        rcases Array.mem_or_eq_of_mem_setIfInBounds hw with hw | rfl
        · exact .inl hw
        · exact .inr hvalue
      · refine modifyHeap (P := fun _ => True) (.element fun items w hw => ?_) trivial
        rcases Array.mem_push.mp hw with hw | rfl
        · exact .inl hw
        · exact .inr hvalue
    | _ => exact .fail

lemma getSuperMember (name : String) :
    Obeys R n t s₀ (fun ev => ev.getSuperMember c name) s R.Sound :=
  .bind (ofSuper c) fun _ _ _ h => by
    obtain ⟨rfl, hopen⟩ := h
    exact getClassMember hc name hopen

lemma setSuperMember {value : Value} (name : String) (hvalue : R.Sound value s) :
    Obeys R n t s₀ (fun ev => ev.setSuperMember c name value) s fun _ _ => True :=
  .bind (ofSuper c) fun _ _ _ h => by
    obtain ⟨rfl, hopen⟩ := h
    exact setClassMember hc name hopen hvalue

lemma getSuperItem {args : List Value} (hargs : ∀ v ∈ args, R.Sound v s) :
    Obeys R n t s₀ (fun ev => ev.getSuperItem c args) s R.Sound :=
  .bind (ofSuper c) fun _ _ _ h => by
    obtain ⟨rfl, hopen⟩ := h
    exact getClassItem hc hopen hargs

lemma setSuperItem {args : List Value} {value : Value} (hargs : ∀ v ∈ args, R.Sound v s)
    (hvalue : R.Sound value s) :
    Obeys R n t s₀ (fun ev => ev.setSuperItem c args value) s fun _ _ => True :=
  .bind (ofSuper c) fun _ _ _ h => by
    obtain ⟨rfl, hopen⟩ := h
    exact setClassItem hc hopen hargs hvalue

end Members

end Obeys

end ScriptLang
