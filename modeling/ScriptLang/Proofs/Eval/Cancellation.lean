/-
Cancelled code stops.

Where code was cancelled, no statement of a list and no turn of a loop starts any more.  What is left to
run are expressions: operands, the defaults of parameters, the initial values of fields.  Operands are
smaller than the expression that they are part of, and all the others are reached through calls, of which
there can be only so many at a time.  So each task leads to tasks of a lower cost (`Lead.cost_lt`), and
the evaluation ends (`cancelled_code_stops`).

There are two gaps (`cancelled_code_goes_on`).  A `super(...)` at the start of a constructor does not stand
in the list of statements that is run as its body, so its arguments are evaluated all the same.  And the
search for a member does not end in a class that has itself for a parent, which a host makes possible by
handing in a class before it is registered.
-/
import ScriptLang.Proofs.Class.Inheritance
import ScriptLang.Proofs.Eval.CodeSize
import ScriptLang.Proofs.Eval.Landing
import ScriptLang.Proofs.Eval.Surface

namespace ScriptLang

/-! ## Costs -/

section Costs

variable {bound : Nat} {K : State → State → Prop} {V : Value → State → Prop} {t t' : Task}
  {c : Context} {s s' s₀ : State}

/-- Operands, and the expressions in a statement, weigh less than what they are part of. -/
lemma Task.Evaluates.weight_lt {e : Expr} (h : t.Evaluates s₀ c e) (hcall : t.isCall = false) :
    sizeOf e + 2 < t.weight := by
  cases h with
  | @operand _ e' _ _ hmem | @target _ e' _ _ _ hmem =>
    have hpart := ExprForm.sizeOf_of_mem_parts hmem
    have hform := e'.sizeOf_form
    simp only [Task.weight]
    omega
  | @inStatement _ st _ _ hmem =>
    have hpart := StmtForm.sizeOf_of_mem_parts hmem
    have hform := st.sizeOf_form
    simp only [Task.weight]
    omega
  | @inLoop _ st init _ _ body _ _ _ hloop hmem =>
    have hpart := StmtForm.sizeOf_of_forLoop init body hmem
    have hform := st.sizeOf_form
    rw [hloop] at hform
    simp only [Task.weight]
    omega
  | default | opening => cases hcall

lemma Task.Assigns.weight_lt {e : Expr} (h : t.Assigns c e) : sizeOf e + 2 < t.weight := by
  cases h with
  | @operand _ e' _ hmem | @element _ e' _ _ hmem =>
    have hpart := ExprForm.sizeOf_of_mem_parts hmem
    have hform := e'.sizeOf_form
    simp only [Task.weight]
    omega

lemma StmtForm.weight_of_mem_branches {st st' : Stmt} (h : st' ∈ st.form.branches) :
    (Task.execute c st').weight < (Task.execute c st).weight := by
  have hpart := StmtForm.sizeOf_of_mem_branches h
  have hform := st.sizeOf_form
  simp only [Task.weight]
  omega

lemma Task.Evaluates.within {e : Expr} (h : t.Evaluates s₀ c e) (hs₀ : s₀.Within bound)
    (ht : t.Within bound) : sizeOf e < bound := by
  cases hcall : t.isCall with
  | false =>
    have hlt := h.weight_lt hcall
    have hle := Task.weight_le ht
    omega
  | true =>
    cases h with
    | default hp he => exact ht e (List.mem_append_left _ (List.mem_filterMap.mpr ⟨_, hp, he⟩))
    | opening hcls _ he => exact (hs₀.cls _ _ hcls).opening e he
    | operand | target | inStatement | inLoop => cases hcall

/-- The tasks to which a step leads run code below the same size. -/
lemma Lead.within (h : Lead K V t s₀ s t' s') (hstop : s.stopped = true) (hs₀ : s₀.Within bound)
    (hs : s.Within bound) (ht : t.Within bound) : t'.Within bound := by
  have hle := Task.weight_le ht
  cases h with
  | evaluate he => exact he.within hs₀ ht
  | @initializer _ _ _ _ _ e _ _ _ hmade hkey =>
    obtain ⟨decl, parent, hmakes, hdraft⟩ := hmade.declared
    have hlt := (Draft.Within.of_ofDecl hdraft).initializer _ hkey
    exact Nat.lt_of_lt_of_le hlt (hmakes.sizeOf_le ht)
  | @assign _ _ e _ _ _ he =>
    have hlt := he.weight_lt
    show sizeOf e < bound
    omega
  | @branch c st st' _ _ hmem =>
    have hlt := StmtForm.weight_of_mem_branches (c := c) hmem
    simp only [Task.weight] at hlt hle
    show sizeOf st' < bound
    omega
  | turn hrun | listed hrun =>
    rw [hstop] at hrun
    cases hrun
  | called _ hcalls =>
    cases hcalls with
    | function hid => exact hs.function _ _ hid
    | method hcallable => exact hcallable.within hs
    | hostFunction | hostMethod => trivial
  | _ => trivial

/-- Without a call, a step leads to lighter tasks only. -/
lemma Lead.weight_lt (h : Lead K V t s₀ s t' s') (hstop : s.stopped = true)
    (ht : t.Meets (· ∈ Interpreter.builtins)) (hcall : t.isCall = false) : t'.weight < t.weight := by
  have hhome : ∀ {c}, t.home = some c → 2 ≤ t.weight := by
    intro c hc
    cases t with
    | evaluate | assign | call | getMember => simp [Task.weight]
    | _ => cases hc
  have hquiet : ∀ {f call request}, t = .host f call → f.Asks request → request.isQuiet = true := by
    rintro f call request rfl hasks
    exact Interpreter.isQuiet_of_mem_builtins ht hasks
  cases h with
  | evaluate he => exact he.weight_lt hcall
  | @initializer _ _ _ _ _ e _ _ _ hmade hkey =>
    obtain ⟨decl, parent, hmakes, hdraft⟩ := hmade.declared
    have hlt : sizeOf e < sizeOf decl := (Draft.Within.of_ofDecl hdraft).initializer _ hkey
    have hdecl := hmakes.sizeOf_lt
    show sizeOf e + 2 < t.weight
    omega
  | assign he => exact he.weight_lt
  | branch hmem => exact StmtForm.weight_of_mem_branches hmem
  | block => simp [Task.weight]
  | turn hrun | listed hrun =>
    rw [hstop] at hrun
    cases hrun
  | called hc hcalls =>
    have hle := hhome hc
    cases hcalls <;> exact hle
  | constructed hconstructs =>
    cases hconstructs with
    | expression => simp [Task.weight]
    | host hasks =>
      obtain ⟨id, args, hasks⟩ := hasks
      cases hquiet rfl hasks
  | callBack hasks | memberForHost hasks => cases hquiet rfl hasks
  | body | parent | hostConstructor | constructor => cases hcall

/-- How many calls may still be entered. -/
def State.callsLeft (s : State) : Nat := s.config.maxCallDepth - s.depth

lemma State.Grows.callsLeft (h : s.Grows s') : s'.callsLeft = s.callsLeft := by
  unfold State.callsLeft
  rw [h.config, h.depth]

/-- A bound on the steps that a task can take. -/
noncomputable def Task.cost (bound : Nat) (s : State) (t : Task) : Nat :=
  s.callsLeft * (bound + 3) + t.weight

/-- Every task takes a step. -/
lemma Task.pos_of_cost_lt {n : Nat} (t : Task) (h : t.cost bound s < n + 1) : 0 < n := by
  have hpos : 0 < t.weight := by
    cases t <;> simp [Task.weight]
  unfold Task.cost at h
  omega

/-- A step leads to tasks of a lower cost. -/
theorem Lead.cost_lt (h : Lead K V t s₀ s t' s') (hstop : s.stopped = true)
    (hgrows : (t.inside s₀).Grows s) (henters : t.isCall = true →
      t.enters s₀ = true ∧ s₀.depth < s₀.config.maxCallDepth)
    (ht : t.Meets (· ∈ Interpreter.builtins)) (ht' : t'.Within bound) :
    t'.cost bound s' < t.cost bound s₀ := by
  have hleft : s'.callsLeft = (t.inside s₀).callsLeft := by
    rw [h.enters.grows.callsLeft, hgrows.callsLeft]
  unfold Task.cost
  rw [hleft]
  cases hcall : t.isCall with
  | false =>
    have hlt := h.weight_lt hstop ht hcall
    rw [Task.inside_of_not_isCall hcall]
    omega
  | true =>
    -- One call fewer can be entered, and this pays for all the code that is run before the next one.
    obtain ⟨henter, hdepth⟩ := henters hcall
    have hcalls : s₀.callsLeft = s₀.entered.callsLeft + 1 := by
      simp only [State.callsLeft, State.entered]
      omega
    have hweight := Task.weight_le ht'
    rw [Task.inside_of_enters henter, hcalls, Nat.succ_mul]
    omega

end Costs

/-! ## The regime -/

/-- The states in which code stops, with code below a size. -/
structure State.Stopping (bound : Nat) (s : State) : Prop where
  stopped : s.stopped = true
  meets : s.Meets (· ∈ Interpreter.builtins)
  within : s.Within bound

/-- What is kept: code stops all the more. -/
structure State.KeepsStopping (bound : Nat) (s s' : State) : Prop where
  grows : s.Grows s'
  stopping : s'.Stopping bound

lemma State.Grows.stopped {s s' : State} (h : s.Grows s') (hs : s.stopped = true) :
    s'.stopped = true := by
  simp only [State.stopped, Bool.and_eq_true] at hs ⊢
  rw [h.config]
  exact ⟨hs.1, h.cancelled hs.2⟩

namespace State.KeepsStopping

variable {bound : Nat} {s s' s'' : State}

lemma trans (h : s.KeepsStopping bound s') (h' : s'.KeepsStopping bound s'') :
    s.KeepsStopping bound s'' :=
  ⟨h.grows.trans h'.grows, h'.stopping⟩

/-- Nothing is changed in functions and classes. -/
lemma of_eq (hs : s.Stopping bound) (hgrows : s.Grows s')
    (hfunctions : s'.heap.functions = s.heap.functions) (hregistry : s'.registry = s.registry) :
    s.KeepsStopping bound s' := by
  have hfunction : ∀ id, s'.heap.function? id = s.heap.function? id := by
    intro id
    rw [Heap.function?, hfunctions]
    rfl
  refine ⟨hgrows, hgrows.stopped hs.stopped, ⟨fun id f hf => ?_, fun id cls hcls => ?_⟩,
    ⟨fun id f hf => ?_, fun id cls hcls => ?_⟩⟩
  · exact hs.meets.function id f (hfunction id ▸ hf)
  · exact hs.meets.cls id cls (hregistry ▸ hcls)
  · exact hs.within.function id f (hfunction id ▸ hf)
  · exact hs.within.cls id cls (hregistry ▸ hcls)

lemma left (h : s.entered.KeepsStopping bound s') : s.KeepsStopping bound s'.left where
  grows := .left h.grows
  stopping := ⟨h.stopping.stopped, ⟨h.stopping.meets.function, h.stopping.meets.cls⟩,
    ⟨h.stopping.within.function, h.stopping.within.cls⟩⟩

lemma withInstance (h : s.Stopping bound) (id : ClassId) :
    s.KeepsStopping bound (s.withInstance id) :=
  of_eq h (.withInstance s id) rfl rfl

end State.KeepsStopping

/-- Code that was cancelled: each task has a cost, and the steps suffice for it.  They may be used up
only where a chain of classes does not end. -/
def Regime.stopping (bound : Nat) : Regime where
  Good := State.Stopping bound
  Kept := State.KeepsStopping bound
  Near := State.KeepsStopping bound
  Knows := fun _ _ => True
  Does := fun n s t => t.Meets (· ∈ Interpreter.builtins) ∧ t.Within bound ∧ t.cost bound s < n
  Stalls := fun s => ¬s.registry.Grounded
  refl := fun h => ⟨.refl _, h⟩
  trans := .trans
  good := State.KeepsStopping.stopping
  near := id
  near_trans := .trans
  grows := State.KeepsStopping.grows
  opened := fun h => .of_eq h (.opened _) rfl rfl
  entered := fun h =>
    ⟨h.stopped, ⟨h.meets.function, h.meets.cls⟩, ⟨h.within.function, h.within.cls⟩⟩
  left := .left
  near_left := .left
  knows := fun _ _ => trivial
  registered := fun _ _ => trivial
  stored := fun _ _ _ _ => trivial
  given := fun _ _ _ _ _ => trivial
  brought := fun _ _ _ => trivial
  operated := fun _ _ => trivial
  handled := fun _ _ h => h
  change := fun hs h => by
    have hgrows := h.grows fun _ _ h => h.grows
    have hstopping := hs.kept.stopping
    exact ⟨hgrows, hgrows.stopped hstopping.stopped, h.meets hstopping.meets,
      h.within hstopping.within hs.does.2.1⟩
  lead := fun hs h => by
    have hstopping := hs.kept.stopping
    obtain ⟨hmeets, hwithin, hcost⟩ := hs.does
    have hwithin' := h.within hstopping.stopped hs.start.within hstopping.within hwithin
    have hlower := h.cost_lt hstopping.stopped hs.kept.grows hs.enters hmeets hwithin'
    refine ⟨?_, h.meets hs.start.meets hstopping.meets, hwithin', by omega⟩
    rcases h.enters with rfl | ⟨c, id, args, -, rfl⟩
    · exact hstopping
    · exact (State.KeepsStopping.withInstance hstopping id).stopping
  constructed := fun hs h _ => (State.KeepsStopping.withInstance hs _).trans h
  abandoned := fun hs h => (State.KeepsStopping.withInstance hs _).trans h
  exhausted := fun _ ht => absurd ht.2.2 (Nat.not_lt_zero _)
  endless := fun _ hsearch hgrounded =>
    Registry.search_ne_endless (fun k _ => hgrounded.ends k) (hgrounded.ends _) hsearch
  stalls_left := id
  halting := .inr ⟨fun s hs => hs.stopped, fun n s t ht _ => t.pos_of_cost_lt ht.2.2⟩

/-! ## What does not run any more -/

/-- The expressions that a call evaluates ahead of its statements: the defaults of parameters, and for a
class of a construction also what a `super(...)` at the start hands to the class above and the initial
values of fields. -/
def Task.opening (s : State) : Task → List Expr
  | .invoke _ decl _ => decl.parameters.filterMap (·.default)
  | .setUp _ id _ _ => ((s.registry.get? id).map Class.opening).getD []
  | _ => []

/-- What stands on the trail of a part, with a task in the state `s`, where code was cancelled: no list of
statements, and of statements only those around a branch. -/
structure Part.Idle (trail : List Task) (t : Task) (s : State) : Prop where
  /-- No statement of a list is executed. -/
  list : ∀ c body, Task.sequence c body ∉ trail
  /-- A statement is the branch of another one, if it is not the whole task. -/
  statement : ∀ c st, t = .execute c st → trail = [] ∨
    ∃ st₀ outer, trail = .execute c st₀ :: outer ∧ st ∈ st₀.form.branches
  /-- No turn of a loop is run. -/
  turn : ∀ scope around body, t = .sequence (.block scope .loop around) body → trail = []
  /-- All that a call evaluates stands ahead of its statements. -/
  opening : ∀ t₀ outer c e, trail = t₀ :: outer → t₀.isCall = true → t = .evaluate c e →
    e ∈ t₀.opening s

lemma Class.Revised.opening {cls cls' : Class} (h : cls.Revised cls') : cls'.opening = cls.opening := by
  simp only [Class.opening, h.origin, h.instanceFields]

section Stopped

variable {K : State → State → Prop} {V : Value → State → Prop} {t t' : Task} {s s' s₀ : State}

/-- The blocks of a statement are no turns of a loop. -/
lemma StmtForm.flow_of_mem_blocks {form : StmtForm} {flow : BlockFlow} {body : List Stmt}
    (h : (flow, body) ∈ form.blocks) : flow ≠ .loop := by
  cases form with
  | block | forLoop =>
    cases List.mem_singleton.mp h
    exact nofun
  | switch =>
    obtain ⟨_, -, heq⟩ := List.mem_map.mp h
    cases heq
    exact nofun
  | _ => cases h

lemma Lead.not_sequence (h : Lead K V t s₀ s t' s') (hstop : s.stopped = true) (c : Context)
    (body : List Stmt) : t ≠ .sequence c body := by
  rintro rfl
  cases h with
  | evaluate he => cases he
  | initializer hmade =>
    obtain ⟨decl, parent, hmakes, -⟩ := hmade.declared
    cases hmakes
  | assign he => cases he
  | listed hrun =>
    rw [hstop] at hrun
    cases hrun
  | called hhome => cases hhome
  | constructed hconstructs => cases hconstructs

lemma Lead.branch_of_execute {c : Context} {st : Stmt} (h : Lead K V t s₀ s (.execute c st) s')
    (hstop : s.stopped = true) : ∃ st₀, t = .execute c st₀ ∧ st ∈ st₀.form.branches := by
  generalize ht' : Task.execute c st = t' at h
  cases h with
  | branch hmem =>
    cases ht'
    exact ⟨_, rfl, hmem⟩
  | turn hrun | listed hrun =>
    rw [hstop] at hrun
    cases hrun
  | called _ hcalls =>
    subst ht'
    cases hcalls
  | _ => cases ht'

lemma Lead.not_turn (h : Lead K V t s₀ s t' s') (hstop : s.stopped = true) (scope : ScopeId)
    (around : Context) (body : List Stmt) : t' ≠ .sequence (.block scope .loop around) body := by
  intro ht'
  cases h with
  | block hmem =>
    cases ht'
    exact StmtForm.flow_of_mem_blocks hmem rfl
  | turn hrun | listed hrun =>
    rw [hstop] at hrun
    cases hrun
  | called _ hcalls =>
    subst ht'
    cases hcalls
  | _ => cases ht'

/-- A class of a construction may be revised on the way, but not in what it evaluates. -/
lemma Lead.mem_opening {c : Context} {e : Expr} (h : Lead K V t s₀ s (.evaluate c e) s')
    (hcall : t.isCall = true) (hgrows : (t.inside s₀).Grows s) : e ∈ t.opening s' := by
  generalize ht' : Task.evaluate c e = t' at h
  cases h with
  | evaluate he =>
    cases ht'
    cases he with
    | default hp he => exact List.mem_filterMap.mpr ⟨_, hp, he⟩
    | @opening _ id _ _ _ _ _ _ _ hcls _ he =>
      rw [← Task.registry_inside] at hcls
      obtain ⟨cls', hcls', hrevised⟩ := hgrows.cls hcls
      show e ∈ ((s.registry.get? id).map Class.opening).getD []
      rw [hcls', Option.map_some, Option.getD_some, hrevised.opening]
      exact he
    | operand | target | inStatement | inLoop => cases hcall
  | initializer hmade =>
    obtain ⟨decl, parent, hmakes, -⟩ := hmade.declared
    cases hmakes <;> cases hcall
  | called _ hcalls =>
    subst ht'
    cases hcalls
  | turn => cases hcall
  | _ => cases ht'

/-- No part of a run that was cancelled executes a statement of a list or a turn of a loop. -/
lemma Part.idle {α : Type} {n k bound : Nat} {m : Evaluator → Exec α} {trail : List Task}
    (hpart : Part n m s trail k t s')
    (hm : ∀ t s', (Evaluator.within n).Asks m s t s' →
      (Regime.stopping bound).Good s' ∧ (Regime.stopping bound).Does n s' t) :
    Part.Idle trail t s' := by
  induction trail generalizing k t s' with
  | nil => exact ⟨nofun, fun _ _ _ => .inl rfl, fun _ _ _ _ => rfl, nofun⟩
  | cons t₀ trail ih =>
    obtain ⟨s₀, s₁, houter, hinside, hlead⟩ := hpart.lead (.stopping bound) hm
    have hstop : s₁.stopped = true := hinside.kept.stopping.stopped
    refine ⟨fun c body hmem => ?_, ?_, ?_, ?_⟩
    · rcases List.mem_cons.mp hmem with heq | hmem
      · exact hlead.not_sequence hstop c body heq.symm
      · exact (ih houter).list c body hmem
    · rintro c st rfl
      obtain ⟨st₀, rfl, hbranch⟩ := hlead.branch_of_execute hstop
      exact .inr ⟨st₀, trail, rfl, hbranch⟩
    · intro scope around body ht
      exact absurd ht (hlead.not_turn hstop scope around body)
    · rintro _ _ c e ⟨⟩ hcall rfl
      exact hlead.mem_opening hcall hinside.kept.grows

end Stopped

/-! ## Where code would go on -/

/-- A task has come to the first statement of a list or to the first turn of a loop. -/
inductive Evaluator.Starts (self : Evaluator) : Task → State → Prop
  | listed {c st rest s s'} : (hoistAll c (st :: rest)).run s = .ok () s' →
      Starts self (.sequence c (st :: rest)) s
  | whileLoop {c st condition body v s s'} : st.form = .whileLoop condition body →
      (self.evaluate c condition).run s = .ok v s' → v.isTruthy = true →
      Starts self (.execute c st) s
  | doWhile {c st body condition s} : st.form = .doWhile body condition →
      Starts self (.execute c st) s
  | forLoop {c : Context} {st init condition increment body} {s s₁ s₂ : State} :
      st.form = .forLoop init condition increment body →
      (self.sequence (.block ⟨s.scopes.size⟩ .plain c) init).run s.opened = .ok .next s₁ →
      (self.holds (.block ⟨s.scopes.size⟩ .plain c) condition).run s₁ = .ok true s₂ →
      Starts self (.execute c st) s

lemma Evaluator.grows_of_hoistAll {c : Context} {body : List Stmt} {s s' : State}
    (h : (hoistAll c body).run s = .ok () s') : s.Grows s' := by
  have hinside : Regime.growing.Inside 0 (.sequence c body) s s :=
    ⟨trivial, trivial, nofun, .refl s⟩
  have hleft := (Obeys.hoistAll body hinside).outcome (within 0) (within_heeds .growing 0)
  rw [h] at hleft
  exact hleft.1

lemma Evaluator.grows_of_holds {n : Nat} {c : Context} {condition : Option Expr} {b : Bool}
    {s s' : State} (h : ((within n).holds c condition).run s = .ok b s') : s.Grows s' := by
  cases condition with
  | none =>
    cases h
    exact .refl _
  | some e =>
    obtain ⟨v, s₁, hv, hrest⟩ := run_bind_eq_ok.mp h
    cases hrest
    exact grows_of_ok hv

/-- A turn does not start. -/
lemma Evaluator.run_turn_of_stopped (self : Evaluator) (c : Context) (body : Stmt) {s : State}
    (hs : s.stopped = true) :
    (self.turn c body).run s = .error (.fault ⟨.cancelled, none⟩) s := by
  have hcheck : Exec.checkCancelled.run s = .error (.fault ⟨.cancelled, none⟩) s := by
    rw [Exec.run_checkCancelled, if_pos hs]
  exact run_bind_error hcheck

/-- Where code was cancelled, coming to a statement or to a turn is the end. -/
lemma Evaluator.Starts.cancelled {k : Nat} {t : Task} {s : State} (h : (within k).Starts t s)
    (hs : s.stopped = true) (hk : 0 < k) :
    ∃ s', ((within (k + 1)).perform t).run s = .error (.fault ⟨.cancelled, none⟩) s' := by
  obtain ⟨k, rfl⟩ := Nat.exists_eq_succ_of_ne_zero (Nat.ne_of_gt hk)
  -- A cancellation gets no place.
  have hlocated : ∀ (p : Position) (m : Exec Flow) s',
      m.run s = .error (.fault ⟨.cancelled, none⟩) s' →
      (Exec.located p m).run s = .error (.fault ⟨.cancelled, none⟩) s' :=
    fun p m s' hm => Exec.run_located_of_error hm
  cases h with
  | @listed c st rest _ s' hhoist =>
    have hstop := (grows_of_hoistAll hhoist).stopped hs
    have hcheck : Exec.checkCancelled.run s' = .error (.fault ⟨.cancelled, none⟩) s' := by
      rw [Exec.run_checkCancelled, if_pos hstop]
    exact ⟨s', (run_bind_ok hhoist).trans (run_bind_error hcheck)⟩
  | @whileLoop c st condition body v _ s' hform hv htrue =>
    have hturn := run_turn_of_stopped (within (k + 1)) c body ((grows_of_ok hv).stopped hs)
    refine ⟨s', hlocated st.place _ s' ?_⟩
    rw [hform]
    refine (run_bind_ok hv).trans ?_
    rw [if_pos htrue]
    exact run_bind_error hturn
  | @doWhile c st body condition _ hform =>
    have hturn := run_turn_of_stopped (within (k + 1)) c body hs
    refine ⟨s, hlocated st.place _ s ?_⟩
    rw [hform]
    exact run_bind_error hturn
  | @forLoop c st init condition increment body _ s₁ s₂ hform hinit hholds =>
    have hopened : s.opened.stopped = true := hs
    have hstop := (grows_of_holds hholds).stopped ((grows_of_ok hinit).stopped hopened)
    have hturn := run_turn_of_stopped (within (k + 1)) (.block ⟨s.scopes.size⟩ .plain c) body hstop
    refine ⟨s₂, hlocated st.place _ s₂ ?_⟩
    rw [hform]
    have hblock : (Exec.newBlock c .plain).run s = .ok (.block ⟨s.scopes.size⟩ .plain c) s.opened := rfl
    refine (run_bind_ok hblock).trans ((run_bind_ok hinit).trans ((run_bind_ok hholds).trans ?_))
    exact run_bind_error hturn

/-! ## Runs -/

/-- With enough steps a task has one and the same outcome, which is not that they were used up. -/
def Task.Terminates (t : Task) (s : State) : Prop :=
  ∃ (N : Nat) (r : EStateM.Result Halt State t.Answer), (∀ s', r ≠ .error .exhausted s') ∧
    ∀ n ≥ N, ((Evaluator.within n).perform t).run s = r

section Runs

variable {t : Task} {s : State}

lemma Task.terminates_of_ne {n : Nat}
    (h : ∀ s', ((Evaluator.within n).perform t).run s ≠ .error .exhausted s') : t.Terminates s :=
  ⟨n, ((Evaluator.within n).perform t).run s, h, fun _ hle => Evaluator.within_extended rfl h hle⟩

/-- A failure that has its place, or gets none, is that of the whole run. -/
lemma Part.fails_of_settled {n k : Nat} {trail : List Task} {t' : Task} {s' s₁ : State} {e : Halt}
    (hs : s.Meets (· ∈ Interpreter.builtins)) (ht : t.Meets (· ∈ Interpreter.builtins))
    (hpart : Part n (fun ev => ev.perform t) s trail k t' s')
    (hr : ((Evaluator.within k).perform t').run s' = .error e s₁) (hset : e.Settled) :
    ∃ s₂, ((Evaluator.within n).perform t).run s = .error e s₂ := by
  have hallows : Interpreter.plainRealm.Allows t := by
    cases t with
    | host => exact ht
    | sequence => exact Nat.zero_le _
    | _ => trivial
  have hask : Composed Interpreter.plainRealm .full (fun ev => ev.perform t) fun _ => True :=
    .ask trivial hallows fun _ => trivial
  obtain ⟨e', s₂, hrun, hbecomes⟩ := (hpart.standing hask ⟨hs, Nat.zero_le _⟩).fails_of_relays
    (fun _ => Interpreter.relays_of_mem_builtins) (Licence.misses_full e) hr
  rw [hbecomes.eq_of_settled hset] at hrun
  exact ⟨s₂, hrun⟩

variable {bound : Nat} (hs : s.Stopping bound) (ht : t.Meets (· ∈ Interpreter.builtins))
  (hwithin : t.Within bound)

include hs ht hwithin

/-- With enough steps, they are used up only where a chain of classes does not end. -/
lemma State.Stopping.terminates_or :
    t.Terminates s ∨ ∀ n > t.cost bound s, ∃ s',
      ((Evaluator.within n).perform t).run s = .error .exhausted s' ∧ ¬s'.registry.Grounded := by
  by_cases h : ∃ n, ∀ s', ((Evaluator.within n).perform t).run s ≠ .error .exhausted s'
  · obtain ⟨n, hn⟩ := h
    exact .inl (Task.terminates_of_ne hn)
  · refine .inr fun n hn => ?_
    push Not at h
    obtain ⟨s', hr⟩ := h n
    have hleft := (Evaluator.within_heeds (.stopping bound) n).perform t s hs ⟨ht, hwithin, hn⟩
    rw [hr] at hleft
    exact ⟨s', hr, hleft.2 rfl⟩

/-- Where references are to registered classes, they are never used up. -/
lemma State.Stopping.terminates (hanchored : s.Anchored) (ht' : t.Anchored s.registry) :
    t.Terminates s := by
  rcases hs.terminates_or ht hwithin with hends | hnever
  · exact hends
  · obtain ⟨s', hr, hnot⟩ := hnever _ (Nat.lt_succ_self _)
    have hgrounded := hanchored.grounded_after ht' ht (t.cost bound s + 1)
    rw [Exec.after_of_error hr] at hgrounded
    exact absurd hgrounded hnot

/-- Coming to a statement or to a turn ends the whole run. -/
lemma Part.cancelled_of_starts {n k : Nat} {trail : List Task} {t' : Task} {s' : State}
    (hn : t.cost bound s < n) (hpart : Part n (fun ev => ev.perform t) s trail (k + 1) t' s')
    (hstarts : (Evaluator.within k).Starts t' s') :
    ∃ s'', ((Evaluator.within n).perform t).run s = .error (.fault ⟨.cancelled, none⟩) s'' := by
  have hm := (Served.perform (R := .stopping bound) n hs ⟨ht, hwithin, hn⟩).allowed
  obtain ⟨hgood, hdoes⟩ := hpart.allowed (.stopping bound) hm
  obtain ⟨s₁, hr⟩ := hstarts.cancelled hgood.stopped (t'.pos_of_cost_lt hdoes.2.2)
  exact hpart.fails_of_settled hs.meets ht hr (.inl rfl)

omit hs ht hwithin

/-- **Cancelled code stops.**  Where code was cancelled, everything that can be evaluated or executed
ends, unless a chain of classes gets no end on the way, and none does if the host hands in registered
classes only.  No statement of a list and no turn of a loop is run any more, so all that a call evaluates
stands ahead of its statements.  A `super(...)` at the start of a constructor does: it is not in the list
that runs as the body.  Wherever code comes to a statement of a list or to a turn, the whole evaluation ends
with a cancellation. -/
theorem cancelled_code_stops (hstop : s.stopped = true) (hhost : s.Meets (· ∈ Interpreter.builtins))
    (ht : t.Meets (· ∈ Interpreter.builtins)) :
    (t.Terminates s ∨ ∃ N, ∀ n ≥ N, ∃ s',
      ((Evaluator.within n).perform t).run s = .error .exhausted s' ∧ ¬s'.registry.Grounded) ∧
    (Interpreter.Reached .plain s → t.Anchored s.registry → t.Terminates s) ∧
    ∃ N, ∀ n ≥ N, ∀ trail k t' s', Part n (fun ev => ev.perform t) s trail (k + 1) t' s' →
      Part.Idle trail t' s' ∧ ((Evaluator.within k).Starts t' s' →
        ∃ s'', ((Evaluator.within n).perform t).run s = .error (.fault ⟨.cancelled, none⟩) s'') := by
  obtain ⟨bound, hcode, hwithin⟩ := s.exists_within t
  have hs : s.Stopping bound := ⟨hstop, hhost, hcode⟩
  refine ⟨?_, fun hreached => hs.terminates ht hwithin (.of_reached hreached), ?_⟩
  · refine (hs.terminates_or ht hwithin).imp_right fun h => ⟨t.cost bound s + 1, fun n hn => ?_⟩
    exact h n (Nat.lt_of_succ_le hn)
  · refine ⟨t.cost bound s + 1, fun n hn trail k t' s' hpart => ?_⟩
    have hlt : t.cost bound s < n := Nat.lt_of_succ_le hn
    have hm := (Served.perform (R := .stopping bound) n hs ⟨ht, hwithin, hlt⟩).allowed
    exact ⟨hpart.idle hm, hpart.cancelled_of_starts hs ht hwithin hlt⟩

/-- A loop that would never end. -/
def endlessLoop : Stmt :=
  ⟨⟨1, 1⟩, .doWhile ⟨⟨1, 4⟩, .empty⟩ ⟨⟨1, 13⟩, .literal (.boolean true)⟩⟩

/-- A new interpreter that was cancelled. -/
def cancelledState : State := { newState with cancelled := true }

lemma stopped_cancelledState : cancelledState.stopped = true := by decide +kernel

lemma reached_cancelledState : Interpreter.Reached .plain cancelledState := by
  have hcancel : Interpreter.Operation .plain newState cancelledState := .cancel
  exact (Interpreter.Reached.of_start start_newState).operation hcancel

/-- The loop ends at its first turn. -/
theorem cancelled_code_stops_endlessLoop :
    (Task.execute Interpreter.root endlessLoop).Terminates cancelledState ∧
      ∃ N, ∀ n ≥ N, ∃ s', ((Evaluator.within n).perform
        (.execute Interpreter.root endlessLoop)).run cancelledState =
          .error (.fault ⟨.cancelled, none⟩) s' := by
  obtain ⟨-, hends, N, hN⟩ := cancelled_code_stops (t := .execute Interpreter.root endlessLoop)
    stopped_cancelledState (State.Anchored.of_reached reached_cancelledState).meets trivial
  refine ⟨hends reached_cancelledState ⟨nofun, Context.anchored_root _⟩, N + 1, fun n hn => ?_⟩
  obtain ⟨n, rfl⟩ := Nat.exists_eq_succ_of_ne_zero (show n ≠ 0 by omega)
  exact (hN (n + 1) (by omega) [] n _ _ (.asked Evaluator.asks_perform_self)).2 (.doWhile rfl)

end Runs

/-! ## What goes on -/

/-- Reading a member does not end where the search for it does not. -/
lemma Evaluator.run_evaluate_member_endless {n : Nat} {c : Context} {e : Expr} {name : String}
    {place : Position} {s s' : State} {v : Value} {caller : Option (ClassId × String)} {target : Target}
    (hsuper : e.isSuper = false) (hv : ((within n).evaluate c e).run s = .ok v s')
    (htarget : Target.ofValue? s'.heap v = some target) (hcaller : c.Caller s' caller)
    (hsearch : s'.registry.search caller target.side name target.start = .endless) :
    ((within (n + 1)).evaluate c ⟨place, .member e name⟩).run s = .error .exhausted s' := by
  have hmember : ((within n).memberOf c v name).run s' = .error .exhausted s' := by
    simp only [memberOf, EStateM.run_bind, EStateM.run_get, htarget]
    exact run_bind_error (hcaller.run_resolve_endless hsearch)
  have hform : ((within n).evaluateForm c (.member e name)).run s = .error .exhausted s' := by
    simp only [evaluateForm, hsuper]
    exact (run_bind_ok hv).trans hmember
  exact Exec.run_located_of_error hform

/-- A class `A` with a parameter, and a class `B` whose constructor hands `print("x")` to it. -/
def leadingScript : List Stmt :=
  [⟨⟨1, 1⟩, .classDecl ⟨"A", none, [⟨"constructor", .isPublic, false,
      .constructor ⟨some "constructor", [⟨"p", false, none⟩], [], ⟨1, 11⟩⟩, ⟨1, 11⟩⟩], ⟨1, 1⟩⟩⟩,
    ⟨⟨2, 1⟩, .classDecl ⟨"B", some ⟨⟨2, 17⟩, .variable "A"⟩, [⟨"constructor", .isPublic, false,
      .constructor ⟨some "constructor", [], [⟨⟨2, 37⟩, .expr ⟨⟨2, 37⟩, .call ⟨⟨2, 37⟩, .super⟩
        [⟨⟨2, 43⟩, .call ⟨⟨2, 43⟩, .variable "print"⟩ [⟨⟨2, 49⟩, .literal (.text "x")⟩]⟩]⟩⟩],
        ⟨2, 21⟩⟩, ⟨2, 21⟩⟩], ⟨2, 1⟩⟩⟩]

/-- The script was run, and then it was cancelled. -/
def leadingState : State :=
  { (Interpreter.run (Evaluator.within 6) leadingScript).after newState with cancelled := true }

lemma reached_leadingState : Interpreter.Reached .plain leadingState := by
  have hrun : Interpreter.Operation .plain newState
      ((Interpreter.run (Evaluator.within 6) leadingScript).after newState) :=
    .request (m := fun ev => Interpreter.run ev leadingScript) 6 (.run leadingScript)
  exact ((Interpreter.Reached.of_start start_newState).operation hrun).operation .cancel

/-- The expression `new B()`. -/
def leadingConstruction : Expr := ⟨⟨3, 1⟩, .new ⟨⟨3, 5⟩, .variable "B"⟩ []⟩

/-- A host hands in the class with the number zero before there is one, and then it cancels. -/
def handedCancelledState : State := { handedState with cancelled := true }

lemma reached_handedCancelledState :
    Interpreter.Reached (.knowing (· = ⟨0⟩) (· ∈ Interpreter.builtins)) handedCancelledState := by
  have hhand : Interpreter.Operation (.knowing (· = ⟨0⟩) (· ∈ Interpreter.builtins)) newState
      handedState :=
    .setGlobal (v := .classRef ⟨0⟩) "v" fun id hid => .inr (Value.classRef.inj hid).symm
  exact ((Interpreter.Reached.of_start start_newState).operation hhand).operation .cancel

lemma grounded_handedCancelledState : handedCancelledState.registry.Grounded := by
  have hsize : handedCancelledState.registry.classes.size = 0 := by decide +kernel
  refine Registry.grounded_of_lt ?_
  rintro a b ⟨cls, hcls, -⟩
  rw [Registry.get?, Array.getElem?_eq_none (by omega)] at hcls
  cases hcls

/-- The expression `(class A extends v {}).x`. -/
def memberOfItself : Expr :=
  ⟨⟨1, 1⟩, .member ⟨⟨1, 2⟩, .classDecl ⟨"A", some ⟨⟨1, 18⟩, .variable "v"⟩, [], ⟨1, 2⟩⟩⟩ "x"⟩

/-- The class gets itself for a parent, and the search for a member goes round in it. -/
lemma not_terminates_memberOfItself :
    ¬(Task.evaluate Interpreter.root memberOfItself).Terminates handedCancelledState := by
  rintro ⟨N, r, hne, hr⟩
  obtain ⟨v, s, hclass, hvalue, hparent, hheld⟩ := Exec.exists_run_of_gives
    (m := (Evaluator.within 4).evaluate Interpreter.root
      ⟨⟨1, 2⟩, .classDecl ⟨"A", some ⟨⟨1, 18⟩, .variable "v"⟩, [], ⟨1, 2⟩⟩⟩)
    (s := handedCancelledState)
    (P := fun v s => (Target.ofValue? s.heap v).map (fun t => (t.start, t.side)) = some (⟨0⟩, .ofClass) ∧
      (s.registry.get? ⟨0⟩).bind (·.parent) = some ⟨0⟩ ∧
      (s.registry.held none .ofClass "x" ⟨0⟩).isNone = true) (by decide +kernel)
  obtain ⟨⟨start, side, receiver⟩, htarget, heq⟩ := Option.map_eq_some_iff.mp hvalue
  cases heq
  obtain ⟨cls, hcls, hp⟩ := Option.bind_eq_some_iff.mp hparent
  have hsearch : s.registry.search none .ofClass "x" ⟨0⟩ = .endless :=
    Registry.searchWithin_of_self ⟨cls, hcls, hp⟩ (Option.isNone_iff_eq_none.mp hheld) _
  have hlater := Evaluator.within_extended hclass nofun (Nat.le_add_left 4 N)
  have hrun : ((Evaluator.within (N + 4 + 1)).evaluate Interpreter.root memberOfItself).run
      handedCancelledState = .error .exhausted s :=
    Evaluator.run_evaluate_member_endless rfl hlater htarget (.outside rfl) hsearch
  exact hne s ((hr _ (by omega)).symm.trans hrun)

/-- After a cancellation, a construction still evaluates what stands in a `super(...)` at the start of a
constructor, and it succeeds if there is nothing else in it.  And where a host has handed in a class that is
not registered, not every evaluation ends, even though all chains of classes do. -/
theorem cancelled_code_goes_on :
    (Interpreter.Reached .plain leadingState ∧ leadingState.stopped = true ∧
      leadingState.output = #[] ∧ ∃ v s', s'.output = #["x"] ∧ ∀ n ≥ 4,
        ((Evaluator.within n).evaluate Interpreter.root leadingConstruction).run leadingState =
          .ok v s') ∧
    Interpreter.Reached (.knowing (· = ⟨0⟩) (· ∈ Interpreter.builtins)) handedCancelledState ∧
      handedCancelledState.stopped = true ∧ handedCancelledState.registry.Grounded ∧
      handedCancelledState.Meets (· ∈ Interpreter.builtins) ∧
      ¬(Task.evaluate Interpreter.root memberOfItself).Terminates handedCancelledState := by
  refine ⟨⟨reached_leadingState, by decide +kernel, by decide +kernel, ?_⟩, reached_handedCancelledState,
    by decide +kernel, grounded_handedCancelledState, ?_, not_terminates_memberOfItself⟩
  · obtain ⟨v, s', hrun, houtput⟩ := Exec.exists_run_of_gives
      (m := (Evaluator.within 4).evaluate Interpreter.root leadingConstruction) (s := leadingState)
      (P := fun _ s' => s'.output = #["x"]) (by decide +kernel)
    exact ⟨v, s', houtput, fun n hn => Evaluator.within_extended hrun nofun hn⟩
  · exact (State.Knowing.of_reached reached_handedCancelledState).host.imp fun _ hf => hf.1

end ScriptLang
