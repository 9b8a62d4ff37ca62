/-
The order in which an instance is set up.

Setting up an instance goes from class to class by recursion, and each class does a part of its work before
the class above and the rest of it after.  Written without the recursion, these are two loops.  On the way
up from the most derived class, each constructor binds its parameters and computes what it hands to the
class above.  On the way back from the class at the root, each class gives its fields their initial values
and runs the rest of its constructor (`construction_runs_base_first`).

Between the two loops there are the constructors that wait for the classes above them (`Pending`).  A fault
in one of these classes ends all calls that are open and gets the place of the nearest call of `super`.
-/
import ScriptLang.Proofs.Class.Ascent
import ScriptLang.Proofs.Class.References
import ScriptLang.Proofs.Class.Privacy

namespace ScriptLang

/-! ## Calls in parts -/

namespace Exec

variable {α β : Type}

/-- Changes what is left by a computation without result. -/
def halting (f : Halt → Halt) (g : State → State) (m : Exec α) : Exec α := fun s =>
  match m.run s with
  | .ok a s' => .ok a s'
  | .error e s' => .error (f e) (g s')

/-- Starts a call. -/
def enter : Exec Unit := fun s =>
  if s.config.maxCallDepth ≤ s.depth then
    .error (.fault { cause := .stackOverflow s.config.maxCallDepth }) s
  else .ok () s.entered

/-- Ends a call. -/
def leave : Exec Unit := modify State.left

variable {f f' : Halt → Halt} {g g' : State → State} {m : Exec α} {s s' : State} {a : α} {e : Halt}

lemma run_halting_of_ok (h : m.run s = .ok a s') : (halting f g m).run s = .ok a s' := by
  simp only [EStateM.run] at h ⊢
  simp only [halting, EStateM.run, h]

lemma run_halting_of_error (h : m.run s = .error e s') :
    (halting f g m).run s = .error (f e) (g s') := by
  simp only [EStateM.run] at h ⊢
  simp only [halting, EStateM.run, h]

lemma run_halting_eq_ok (h : (halting f g m).run s = .ok a s') : m.run s = .ok a s' := by
  cases hm : m.run s with
  | ok b s'' =>
    rw [run_halting_of_ok hm] at h
    exact h
  | error e s'' =>
    rw [run_halting_of_error hm] at h
    cases h

lemma halting_id (m : Exec α) : halting id id m = m := by
  funext s
  change (halting id id m).run s = m.run s
  cases hm : m.run s with
  | ok a s' => exact run_halting_of_ok hm
  | error e s' => exact run_halting_of_error hm

lemma halting_pure (a : α) : halting f g (pure a) = pure a := rfl

/-- The parts of a computation can be treated one by one. -/
lemma halting_bind (m : Exec α) (k : α → Exec β) :
    halting f g (m >>= k) = halting f g m >>= fun a => halting f g (k a) := by
  funext s
  change (halting f g (m >>= k)).run s = (halting f g m >>= fun a => halting f g (k a)).run s
  cases hm : m.run s with
  | error e s' =>
    rw [run_halting_of_error (run_bind_error hm), run_bind_error (run_halting_of_error hm)]
  | ok a s' =>
    rw [run_bind_ok (run_halting_of_ok hm)]
    cases hk : (k a).run s' with
    | ok b s'' =>
      rw [run_halting_of_ok ((run_bind_ok hm).trans hk), run_halting_of_ok hk]
    | error e s'' =>
      rw [run_halting_of_error ((run_bind_ok hm).trans hk), run_halting_of_error hk]

lemma halting_halting (m : Exec α) : halting f g (halting f' g' m) = halting (f ∘ f') (g ∘ g') m := by
  funext s
  change (halting f g (halting f' g' m)).run s = (halting (f ∘ f') (g ∘ g') m).run s
  cases hm : m.run s with
  | ok a s' => rw [run_halting_of_ok hm, run_halting_of_ok (run_halting_of_ok hm)]
  | error e s' => rw [run_halting_of_error hm, run_halting_of_error (run_halting_of_error hm)]; rfl

lemma located_eq (p : Position) (m : Exec α) : located p m = halting (Halt.locate p) id m := by
  funext s
  change (located p m).run s = (halting (Halt.locate p) id m).run s
  cases hm : m.run s with
  | ok a s' => rw [run_located_of_ok hm, run_halting_of_ok hm]
  | error e s' => rw [run_located_of_error hm, run_halting_of_error hm]; rfl

/-- A call starts and ends, and it ends as well if there is no result. -/
lemma asCall_eq (m : Exec Unit) : asCall m = enter >>= fun _ => halting id State.left m >>= fun _ => leave := by
  funext s
  change (asCall m).run s = (enter >>= fun _ => halting id State.left m >>= fun _ => leave).run s
  by_cases hd : s.config.maxCallDepth ≤ s.depth
  · have henter : enter.run s =
        .error (.fault { cause := .stackOverflow s.config.maxCallDepth }) s := if_pos hd
    rw [run_asCall_of_le hd, run_bind_error henter]
  · have henter : enter.run s = .ok () s.entered := if_neg hd
    rw [run_bind_ok henter]
    cases hm : m.run s.entered with
    | ok a s' =>
      rw [run_asCall_of_ok (Nat.not_le.mp hd) hm, run_bind_ok (run_halting_of_ok hm)]
      rfl
    | error e s' =>
      rw [run_asCall_of_error (Nat.not_le.mp hd) hm, run_bind_error (run_halting_of_error hm)]
      rfl

end Exec

/-! ## The classes of an instance -/

/-- The constructor that a member declares. -/
def MemberDecl.constructor? (m : MemberDecl) : Option FunctionDecl :=
  match m.form with
  | .constructor f => some f
  | _ => none

/-- The fields of the instances that a member declares. -/
def MemberDecl.fields (className : String) (m : MemberDecl) : List Field :=
  if m.isStatic then []
  else
    match m.form with
    | .field initializer => [⟨Class.key m.visibility className m.name, initializer⟩]
    | .property getter setter initializer =>
      if Draft.isAuto getter || Draft.isAuto setter then
        [⟨Class.key .isPrivate className (Class.hiddenName m.name), initializer⟩]
      else []
    | _ => []

namespace ClassDecl

/-- The constructor of a declaration.  There is at most one. -/
def constructor? (decl : ClassDecl) : Option FunctionDecl :=
  (decl.members.filterMap MemberDecl.constructor?).getLast?

/-- The fields of the instances, in the order of their declaration. -/
def fields (decl : ClassDecl) : List Field := decl.members.flatMap (·.fields decl.name)

end ClassDecl

namespace Draft

variable {d d' draft : Draft} {m : MemberDecl} {decl : ClassDecl} {parent : Option ClassId} {c : Context}

lemma instanceFields_addMember (d : Draft) (side : Side) (key : String) (member : Member) :
    (d.addMember side key member).partialClass.instanceFields = d.partialClass.instanceFields := by
  cases side <;> rfl

lemma instanceFields_addField (d : Draft) (isStatic : Bool) (key : String)
    (initializer : Option Expr) :
    (d.addField (.ofStatic isStatic) key initializer).partialClass.instanceFields =
      d.partialClass.instanceFields ++ if isStatic then [] else [⟨key, initializer⟩] := by
  cases isStatic
  · rfl
  · exact (List.append_nil _).symm

/-- The fields of a member come after those that are there. -/
lemma Adds.instanceFields_eq (h : d.Adds m d') :
    d'.partialClass.instanceFields = d.partialClass.instanceFields ++ m.fields d.name := by
  cases h with
  | field hform =>
    rw [instanceFields_addField]
    simp only [MemberDecl.fields, hform]
  | autoProperty hform hauto =>
    rw [instanceFields_addMember, instanceFields_addField]
    simp only [MemberDecl.fields, hform, hauto, if_true]
  | property hform hauto =>
    rw [instanceFields_addMember]
    simp [MemberDecl.fields, hform, hauto]
  | constructor hform => simp [MemberDecl.fields, hform]
  | method hform | indexer hform =>
    rw [instanceFields_addMember]
    simp [MemberDecl.fields, hform]

lemma constructor_addField (d : Draft) (side : Side) (key : String) (initializer : Option Expr) :
    (d.addField side key initializer).constructor = d.constructor := by
  cases side <;> rfl

lemma Adds.constructor_eq (h : d.Adds m d') : d'.constructor = m.constructor?.or d.constructor := by
  cases h with
  | constructor hform => simp [MemberDecl.constructor?, hform]
  | field hform => simp [MemberDecl.constructor?, hform, constructor_addField]
  | autoProperty hform => simp [MemberDecl.constructor?, hform, addMember, constructor_addField]
  | method hform | property hform | indexer hform => simp [MemberDecl.constructor?, hform, addMember]

/-- A declaration gives its constructor and its fields. -/
lemma finish_of_ofDecl (h : ofDecl decl parent c = .ok draft) :
    (draft.finish c).origin = .script c decl.constructor? ∧
      (draft.finish c).instanceFields = decl.fields := by
  have hdone := ofDecl_visits h (P := fun done d => d.name = decl.name ∧
    d.constructor = (done.filterMap MemberDecl.constructor?).getLast? ∧
    d.partialClass.instanceFields = done.flatMap (·.fields decl.name)) ⟨rfl, rfl, rfl⟩ ?_
  · obtain ⟨-, hconstructor, hfields⟩ := hdone
    exact ⟨congrArg (Origin.script c) hconstructor, hfields⟩
  · rintro done m - d d' ⟨hname, hconstructor, hfields⟩ hadds
    refine ⟨hadds.name_eq.trans hname, ?_, ?_⟩
    · rw [hadds.constructor_eq, hconstructor, List.filterMap_append, List.getLast?_append]
      cases h : m.constructor? <;> simp [h]
    · rw [hadds.instanceFields_eq, hfields, hname]
      simp

end Draft

/-- A class of an instance that was declared in a script. -/
structure Level where
  id : ClassId
  decl : ClassDecl
  /-- The context of the declaration. -/
  closure : Context

/-- The class was made from the declaration, as an extension of the given one. -/
def Level.Describes (l : Level) (cls : Class) (parent : Option ClassId) : Prop :=
  ∃ draft, Draft.ofDecl l.decl parent l.closure = .ok draft ∧ (draft.finish l.closure).Revised cls

/-- The classes from a given one upward, all of them declared in scripts. -/
inductive Registry.Lineage (r : Registry) : Option ClassId → List Level → Prop
  | above : Lineage r none []
  | level {l : Level} {cls parent levels} : r.get? l.id = some cls → l.Describes cls parent →
      Lineage r parent levels → Lineage r (some l.id) (l :: levels)

namespace Level.Describes

variable {l : Level} {cls cls' : Class} {parent : Option ClassId}

lemma revised (h : l.Describes cls parent) (hrevised : cls.Revised cls') : l.Describes cls' parent := by
  obtain ⟨draft, hdraft, hcls⟩ := h
  exact ⟨draft, hdraft, hcls.trans hrevised⟩

lemma name_eq (h : l.Describes cls parent) : cls.name = l.decl.name :=
  ClassDecl.Describes.name ⟨parent, l.closure, h⟩

lemma parent_eq (h : l.Describes cls parent) : cls.parent = parent := by
  obtain ⟨draft, hdraft, hcls⟩ := h
  exact hcls.parent.trans (Draft.parent_of_ofDecl hdraft)

lemma origin_eq (h : l.Describes cls parent) :
    cls.origin = .script l.closure l.decl.constructor? := by
  obtain ⟨draft, hdraft, hcls⟩ := h
  exact hcls.origin.trans (Draft.finish_of_ofDecl hdraft).1

lemma instanceFields_eq (h : l.Describes cls parent) : cls.instanceFields = l.decl.fields := by
  obtain ⟨draft, hdraft, hcls⟩ := h
  exact hcls.instanceFields.trans (Draft.finish_of_ofDecl hdraft).2

end Level.Describes

namespace Registry.Lineage

variable {s s' : State} {id : ClassId} {start : Option ClassId} {levels : List Level}

/-- The classes are those of a walk upward. -/
lemma climbs {r : Registry} (h : r.Lineage (some id) levels) : r.Climbs id (levels.map Level.id) := by
  induction levels generalizing id with
  | nil => cases h
  | cons l levels ih =>
    cases h with
    | @level _ cls parent _ hcls hdescribes hrest =>
      cases hrest with
      | above => exact .top hcls hdescribes.parent_eq
      | level hcls' hdescribes' hrest =>
        exact .up hcls hdescribes.parent_eq (ih (.level hcls' hdescribes' hrest))

/-- Declarations stay what they are while code runs. -/
lemma mono (h : s.registry.Lineage start levels) (hs : s.Grows s') :
    s'.registry.Lineage start levels := by
  induction h with
  | above => exact .above
  | level hcls hdescribes _ ih =>
    obtain ⟨cls', hcls', hrevised⟩ := hs.cls hcls
    exact .level hcls' (hdescribes.revised hrevised) ih

end Registry.Lineage

/-! ## Two loops -/

/-- A constructor that waits for the class above. -/
structure Pending where
  level : Level
  context : Context
  /-- The statements after the call of `super`. -/
  rest : List Stmt
  /-- The place of this call. -/
  via : Option Position

namespace Level

variable (ev : Evaluator)

/-- Binds the parameters of the constructor and gives its body. -/
def bindArguments (l : Level) (context : Context) (args : List Value) : Exec (List Stmt) :=
  match l.decl.constructor? with
  | some f => ev.bindParameters context f args >>= fun _ => return f.body
  | none =>
    if args.isEmpty then return []
    else Exec.fail (.arityMismatch l.decl.name "0" args.length)

/-- The arguments for the class above, which are none without a call of `super`. -/
def superArguments (l : Level) (isRoot : Bool) (context : Context) :
    Option (List Expr × Position) → Exec (List Value)
  | none => return []
  | some (arguments, place) => Exec.located place <|
    if isRoot then Exec.fail (.invalidSuper ("class '" ++ l.decl.name ++ "' has no superclass"))
    else ev.evaluateAll context arguments

/-- What a constructor does before the class above is set up. -/
def prepare (i : InstanceId) (l : Level) (isRoot : Bool) (args : List Value) :
    Exec (Pending × List Value) := do
  let context ← Exec.newMethodContext l.closure l.id (some (.instanceRef i))
  let body ← l.bindArguments ev context args
  let split := Evaluator.splitSuperCall body
  let values ← l.superArguments ev isRoot context split.1
  return (⟨l, context, split.2, split.1.map (·.2)⟩, values)

end Level

namespace Pending

variable (ev : Evaluator) {α : Type}

/-- What is done after the class above is set up. -/
def complete (i : InstanceId) (p : Pending) : Exec Unit := do
  ev.setUpFields p.context i p.level.decl.fields
  match ← ev.runBody p.context p.rest with
  | .jumps label => Exec.fail (.labelNotFound label)
  | _ => return ()

/-- Gives a fault of the class above the place of the call of `super`. -/
def locate (p : Pending) : Halt → Halt := p.via.elim id Halt.locate

/-- Runs something for the class above the first of the constructors that wait, each of which waits for the
one before.  Without a result their calls end. -/
def around : List Pending → Exec α → Exec α
  | [], m => m
  | p :: pending, m => around pending (Exec.halting p.locate State.left m)

end Pending

section Loops

variable (ev : Evaluator) (i : InstanceId)

/-- Starts the constructors of the classes, from the most derived one to the root.  The arguments are those
of the first, and each class gets those that the class below hands to it. -/
def startAll : List Level → List Value → List Pending → Exec (List Pending)
  | [], _, pending => return pending
  | l :: levels, args, pending => do
    let (p, values) ← Pending.around pending do
      Exec.enter
      Exec.halting id State.left (l.prepare ev i levels.isEmpty args)
    startAll levels values (p :: pending)

/-- Completes the constructors that wait, from the root to the most derived class. -/
def completeAll : List Pending → Exec Unit
  | [] => return ()
  | p :: pending => do
    Pending.around pending do
      Exec.halting id State.left (p.complete ev i)
      Exec.leave
    completeAll pending

/-- Makes an instance of the first of the classes. -/
def constructInOrder (id : ClassId) (levels : List Level) (args : List Value) : Exec Value := do
  let i ← Exec.newInstance id
  let pending ← startAll ev i levels args []
  completeAll ev i pending
  return .instanceRef i

/-- Sets up an instance by recursion over its classes. -/
def nest : List Level → List Value → Exec Unit
  | [], _ => return ()
  | l :: levels, args => Exec.asCall do
    let (p, values) ← l.prepare ev i levels.isEmpty args
    Exec.halting p.locate id (nest levels values)
    p.complete ev i

end Loops

/-! ## The loops and the recursion -/

section Around

variable {α β : Type} (pending : List Pending)

lemma Pending.around_pure (a : α) : around pending (pure a) = pure a := by
  induction pending with
  | nil => rfl
  | cons p pending ih =>
    rw [around, Exec.halting_pure]
    exact ih

lemma Pending.around_bind (m : Exec α) (k : α → Exec β) :
    around pending (m >>= k) = around pending m >>= fun a => around pending (k a) := by
  induction pending generalizing m k with
  | nil => rfl
  | cons p pending ih =>
    simp only [around]
    rw [Exec.halting_bind]
    exact ih _ _

end Around

/-- The recursion is unrolled by keeping the constructors that wait. -/
theorem nest_eq_loops (ev : Evaluator) (i : InstanceId) (levels : List Level) (args : List Value)
    (pending : List Pending) :
    (Pending.around pending (nest ev i levels args) >>= fun _ => completeAll ev i pending) =
      startAll ev i levels args pending >>= completeAll ev i := by
  -- The induction is on the classes that are left, while any number of constructors waits already.
  induction levels generalizing args pending with
  | nil =>
    simp only [nest, startAll]
    rw [Pending.around_pure, pure_bind, pure_bind]
  | cons l levels ih =>
    simp only [nest, startAll]
    rw [Exec.asCall_eq, Exec.halting_bind, bind_assoc, ← bind_assoc Exec.enter, Pending.around_bind,
      bind_assoc, bind_assoc]
    refine bind_congr fun started => ?_
    -- The call of `super` is what the constructor waits for.
    rw [← ih started.2 (started.1 :: pending), Exec.halting_bind, bind_assoc, Pending.around_bind,
      Exec.halting_halting, bind_assoc]
    rfl

namespace Evaluator

variable (self : Evaluator) (c : Context) {l : Level} {cls : Class} {parent : Option ClassId}
  (i : InstanceId) (args : List Value)

/-- Sets up the instance as one of the class above, if there is one. -/
def setUpAbove : Option ClassId → List Value → Exec Unit
  | none, _ => return ()
  | some p, values => self.setUp c p i values

lemma bindConstructor_eq (context : Context) (hl : l.Describes cls parent) :
    self.bindConstructor context cls l.decl.constructor? args = l.bindArguments self context args := by
  unfold bindConstructor Level.bindArguments
  cases l.decl.constructor? with
  | some f => rfl
  | none =>
    dsimp only
    unfold refuseArguments
    rw [hl.name_eq]
    split
    · rw [pure_bind]
    · rfl

/-- The arguments for the class above are computed before it is set up. -/
lemma setUpParent_eq (context : Context) (hl : l.Describes cls parent)
    (superCall : Option (List Expr × Position)) (rest : List Stmt) :
    self.setUpParent c context cls i superCall =
      l.superArguments self parent.isNone context superCall >>= fun values =>
        Exec.halting (Pending.locate ⟨l, context, rest, superCall.map (·.2)⟩) id
          (self.setUpAbove c i parent values) := by
  have hparent := hl.parent_eq
  subst hparent
  unfold setUpParent Level.superArguments
  cases superCall with
  | none =>
    simp only [pure_bind, Pending.locate, Option.map_none, Option.elim_none]
    rw [Exec.halting_id]
    cases cls.parent <;> rfl
  | some call =>
    simp only [Pending.locate, Option.map_some, Option.elim_some]
    rw [← hl.name_eq]
    cases cls.parent with
    | none => rfl
    | some p =>
      simp only [Option.isNone_some, Bool.false_eq_true, if_false]
      refine bind_congr fun values => ?_
      rw [Exec.located_eq]
      rfl

/-- A constructor does one part of its work before the class above is set up and the other part after. -/
lemma setUpAs_eq (hl : l.Describes cls parent) : self.setUpAs c l.id cls i args =
    l.prepare self i parent.isNone args >>= fun started =>
      Exec.halting started.1.locate id (self.setUpAbove c i parent started.2) >>= fun _ =>
        started.1.complete self i := by
  unfold setUpAs Level.prepare
  rw [hl.origin_eq]
  dsimp only
  unfold setUpScript constructIn Pending.complete
  simp only [bind_assoc, pure_bind, bindConstructor_eq self args _ hl, hl.instanceFields_eq]
  refine bind_congr fun context => bind_congr fun body => ?_
  have hparent := setUpParent_eq self c i context hl (splitSuperCall body).1 (splitSuperCall body).2
  exact (congrArg (· >>= _) hparent).trans (bind_assoc _ _ _)

end Evaluator

/-! ## Evaluators with a bound -/

/-- The constructor of a class waits that was started in the state `s₀`. -/
structure Pending.Waits (p : Pending) (s₀ : State) (i : InstanceId) (l : Level) : Prop where
  level : p.level = l
  context : p.context = .method ⟨s₀.scopes.size⟩ l.closure l.id (some (.instanceRef i))
  rest : p.rest = (Evaluator.splitSuperCall ((l.decl.constructor?.map (·.body)).getD [])).2

namespace Obeys

variable {R : Regime} {n : Nat} {c : Context} {s₀ s : State} {l : Level} {cls : Class}
  {parent : Option ClassId} {i : InstanceId} {args : List Value}
  (hcls : s₀.registry.get? l.id = some cls) (hl : l.Describes cls parent)

include hcls hl

lemma prepare : Obeys R n (.setUp c l.id i args) s₀
    (fun ev => l.prepare ev i parent.isNone args) s₀.entered
    fun started _ => started.1.Waits s₀ i l := by
  refine .bind (newMethodContext l.id (some (.instanceRef i))) fun context _ _ hcontext => ?_
  subst hcontext
  refine .inside fun hs => ?_
  have hargs : ∀ v ∈ args, R.Sound v _ := fun v hv => R.sound_of_mem_values hs hv
  simp only [← Evaluator.bindConstructor_eq _ args _ hl]
  refine .bind (bindConstructor hcls hl.origin_eq hargs) fun body s₁ _ hbody => ?_
  subst hbody
  refine .bind (P := fun _ _ => True) ?_ fun values _ _ _ => .pure ⟨rfl, rfl, rfl⟩
  cases hsplit : (Evaluator.splitSuperCall ((l.decl.constructor?.map (·.body)).getD [])).1 with
  | none => exact .pure trivial
  | some call =>
    refine .located (.ite (fun _ => .fail) fun _ => ?_)
    exact (superArguments hcls hl.origin_eq hsplit).weaken fun _ _ _ _ => trivial

lemma complete {p : Pending} (hp : p.Waits s₀ i l) :
    Obeys R n (.setUp c l.id i args) s₀ (fun ev => p.complete ev i) s fun _ _ => True := by
  unfold Pending.complete
  rw [hp.level, hp.context, hp.rest, ← hl.instanceFields_eq]
  refine .bind (setUpFields hcls hl.origin_eq) fun _ _ _ _ => ?_
  refine .bind (runRest hcls hl.origin_eq) fun flow _ _ _ => ?_
  cases flow with
  | jumps label => exact .fail
  | next | breaks | continues | returns => exact .pure trivial

end Obeys

lemma Extended.halting {α : Type} {x x' : Exec α} {s : State} {f : Halt → Halt} {g : State → State}
    (hf : f .exhausted = .exhausted) (h : Extended (x.run s) (x'.run s)) :
    Extended ((Exec.halting f g x).run s) ((Exec.halting f g x').run s) := by
  rcases h with heq | ⟨s', hx⟩
  · refine .inl ?_
    simp only [EStateM.run] at heq ⊢
    simp only [Exec.halting, EStateM.run, heq]
  · refine .inr ⟨g s', ?_⟩
    rw [Exec.run_halting_of_error hx, hf]

lemma Pending.locate_exhausted (p : Pending) : p.locate .exhausted = .exhausted := by
  obtain ⟨level, context, rest, via⟩ := p
  cases via <;> rfl

namespace Evaluator

variable {n k : Nat} {c : Context} {i : InstanceId} {s s' : State} {start : Option ClassId}
  {levels : List Level} {args : List Value}

lemma grows_of_setUpAbove (h : ((within n).setUpAbove c i start args).run s = .ok () s') :
    s.Grows s' := by
  cases start with
  | none =>
    cases h
    exact .refl s
  | some id => exact grows_of_ok h

/-- One class is set up by its two parts, with any way to set up the class above in between. -/
lemma setUpAs_extended {l : Level} {cls : Class} {above : List Value → Exec Unit}
    (hcls : s.registry.get? l.id = some cls) (hl : l.Describes cls start) (hle : n ≤ k)
    (habove : ∀ values s', s.entered.Grows s' →
      ScriptLang.Extended (((within n).setUpAbove c i start values).run s') ((above values).run s')) :
    ScriptLang.Extended ((Exec.asCall ((within n).setUpAs c l.id cls i args)).run s)
      ((Exec.asCall (l.prepare (within k) i start.isNone args >>= fun started =>
        Exec.halting started.1.locate id (above started.2) >>= fun _ =>
          started.1.complete (within k) i)).run s) := by
  by_cases hd : s.config.maxCallDepth ≤ s.depth
  · rw [Exec.run_asCall_of_le hd, Exec.run_asCall_of_le hd]
    exact .refl _
  -- From here on the call is entered, and what is known of the parts of its step can be used.
  have henters : (Task.setUp c l.id i args).enters s = true := by simp [Task.enters, hcls]
  have hinside : ∀ s', s.entered.Grows s' → Regime.growing.Inside n (.setUp c l.id i args) s s' := by
    intro s' hs'
    refine ⟨trivial, trivial, fun _ => ⟨henters, Nat.not_le.mp hd⟩, ?_⟩
    rwa [Task.inside_of_enters henters]
  have hheeds := within_heeds .growing n
  have hextended := within_extended_of_le hle
  rw [setUpAs_eq _ _ _ _ hl]
  have hprepare := Obeys.prepare (R := .growing) hcls hl (hinside s.entered (.refl _))
  refine .asCall (.bind (hprepare.extended _ _ hheeds hextended) fun started s₁ hstarted => ?_)
  have hleft := hprepare.outcome _ hheeds
  rw [hstarted] at hleft
  obtain ⟨hgrows₁, hwaits⟩ := hleft
  refine .bind (.halting started.1.locate_exhausted (habove started.2 s₁ hgrows₁)) fun _ s₂ hs₂ => ?_
  have hgrows₂ := grows_of_setUpAbove (Exec.run_halting_eq_ok hs₂)
  have hcomplete := Obeys.complete (R := .growing) hcls hl hwaits (hinside s₂ (hgrows₁.trans hgrows₂))
  exact hcomplete.extended _ _ hheeds hextended

/-- An instance is set up by recursion over its classes. -/
theorem setUpAbove_extended (hlevels : s.registry.Lineage start levels) (hle : n ≤ k) :
    ScriptLang.Extended (((within n).setUpAbove c i start args).run s)
      ((nest (within k) i levels args).run s) := by
  -- Each class takes one step of the bound.  The classes above are still there when their turn comes.
  induction levels generalizing n s start args with
  | nil =>
    cases hlevels
    exact .refl _
  | cons l levels ih =>
    cases hlevels with
    | @level _ cls parent _ hcls hl hrest =>
      cases n with
      | zero => exact .inr ⟨s, rfl⟩
      | succ n =>
        have hn : n ≤ k := Nat.le_of_succ_le hle
        have hroot : levels.isEmpty = parent.isNone := by cases hrest <;> rfl
        have hstep : ((within (n + 1)).setUpAbove c i (some l.id) args).run s =
            (Exec.asCall ((within n).setUpAs c l.id cls i args)).run s :=
          run_bind_ok (Exec.run_classOf hcls)
        rw [hstep, nest, hroot]
        refine setUpAs_extended hcls hl hn fun values s' hgrows => ih ?_ hn
        exact hrest.mono (s := s.entered) hgrows

end Evaluator

/-! ## The order of construction -/

lemma Pending.run_around_eq_ok {α : Type} {pending : List Pending} {m : Exec α} {s s' : State} {a : α}
    (h : (around pending m).run s = .ok a s') : m.run s = .ok a s' := by
  induction pending generalizing m with
  | nil => exact h
  | cons p pending ih => exact Exec.run_halting_eq_ok (ih h)

lemma Level.level_of_prepare {ev : Evaluator} {i : InstanceId} {l : Level} {isRoot : Bool}
    {args values : List Value} {p : Pending} {s s' : State}
    (h : (l.prepare ev i isRoot args).run s = .ok (p, values) s') : p.level = l := by
  obtain ⟨context, s₁, -, h⟩ := run_bind_eq_ok.mp h
  obtain ⟨body, s₂, -, h⟩ := run_bind_eq_ok.mp h
  obtain ⟨values', s₃, -, h⟩ := run_bind_eq_ok.mp h
  cases h
  rfl

/-- When the constructors are started, those of all classes wait, and the one of the root is the first to be
completed. -/
lemma levels_of_startAll {ev : Evaluator} {i : InstanceId} {levels : List Level} {args : List Value}
    {pending waiting : List Pending} {s s' : State}
    (h : (startAll ev i levels args pending).run s = .ok waiting s') :
    waiting.map (·.level) = levels.reverse ++ pending.map (·.level) := by
  induction levels generalizing args pending s with
  | nil =>
    cases h
    rfl
  | cons l levels ih =>
    simp only [startAll] at h
    obtain ⟨⟨p, values⟩, s₁, hstarted, hrest⟩ := run_bind_eq_ok.mp h
    obtain ⟨_, s₂, -, hprepare⟩ := run_bind_eq_ok.mp (Pending.run_around_eq_ok hstarted)
    have hlevel := Level.level_of_prepare (Exec.run_halting_eq_ok hprepare)
    rw [ih hrest]
    simp [hlevel]

/-- The two loops set up an instance as the recursion does. -/
lemma constructInOrder_eq (ev : Evaluator) (id : ClassId) (levels : List Level) (args : List Value) :
    constructInOrder ev id levels args = do
      let i ← Exec.newInstance id
      nest ev i levels args
      return .instanceRef i := by
  refine bind_congr fun i => ?_
  have hnest : nest ev i levels args >>= (fun _ => pure ()) =
      startAll ev i levels args [] >>= completeAll ev i := nest_eq_loops ev i levels args []
  rw [← bind_assoc, ← hnest, bind_assoc]
  rfl

/-- **Construction goes through all classes of an instance, the root first.**  Making an instance of a class
that was declared in a script, as were all classes above it, is the same as running two loops.  The first
goes from the class to the root.  It binds the parameters of each constructor to the arguments, which are
those that were computed for the call of `super` at the start of the constructor below.  The second goes
back from the root.  It gives the fields of each class their initial values, in the order of their
declaration, and runs what comes after the call of `super` in its constructor.  No class is visited twice,
and where one of the steps fails no later step is made. -/
theorem construction_runs_base_first {s : State} {id : ClassId} {levels : List Level}
    (hlevels : s.registry.Lineage (some id) levels) (c : Context) (args : List Value) (n : Nat)
    (hdone : ∀ s', ((Evaluator.within n).construct c id args).run s ≠ .error .exhausted s') :
    ((Evaluator.within n).construct c id args).run s =
        (constructInOrder (Evaluator.within n) id levels args).run s ∧
      (levels.map Level.id).Nodup ∧
      ∀ i waiting s₁ s₂, (startAll (Evaluator.within n) i levels args []).run s₁ = .ok waiting s₂ →
        waiting.map (·.level) = levels.reverse := by
  refine ⟨?_, hlevels.climbs.nodup, fun i waiting s₁ s₂ h => ?_⟩
  · have hextended : Extended (((Evaluator.within n).construct c id args).run s)
        ((constructInOrder (Evaluator.within n) id levels args).run s) := by
      rw [constructInOrder_eq]
      refine .bind (.refl _) fun i s' hi => .bind ?_ fun _ _ _ => .refl _
      cases hi
      have hnew := hlevels.mono (.withInstance s id)
      exact Evaluator.setUpAbove_extended hnew (Nat.le_refl n)
    rcases hextended with heq | ⟨s', hexhausted⟩
    · exact heq.symm
    · exact absurd hexhausted (hdone s')
  · simpa using levels_of_startAll h

/-- A class with a field that its constructor sets. -/
def baseDecl : ClassDecl :=
  ⟨"A", none, [⟨"x", .isPublic, false, .field none, ⟨1, 11⟩⟩,
    .constructor [.value] [⟨⟨2, 5⟩, .expr (.assign (.ofThis "x") (.ofForm (.variable "value")))⟩]],
    ⟨1, 1⟩⟩

/-- A class below it with a field that starts with what the other one has.  The constructor of `A` gets what
that of `B` is called with. -/
def extendedDecl : ClassDecl :=
  ⟨"B", some ⟨⟨4, 17⟩, .variable "A"⟩,
    [⟨"y", .isPublic, false, .field (some (.ofThis "x")), ⟨4, 21⟩⟩,
      .constructor [.value]
        [⟨⟨5, 5⟩, .expr (.ofForm (.call (.ofForm .super) [.ofForm (.variable "value")]))⟩]], ⟨4, 1⟩⟩

/-- The two classes. -/
def chainLevels : List Level := [⟨⟨1⟩, extendedDecl, Interpreter.root⟩, ⟨⟨0⟩, baseDecl, Interpreter.root⟩]

/-- An interpreter with the two classes. -/
def chainState : State :=
  let class₁ : Class :=
    ⟨"A", none, .script Interpreter.root baseDecl.constructor?, {}, {}, baseDecl.fields, {}⟩
  let class₂ : Class :=
    ⟨"B", some ⟨0⟩, .script Interpreter.root extendedDecl.constructor?, {}, {}, extendedDecl.fields, {}⟩
  { plainState with registry := ⟨#[class₁, class₂]⟩ }

lemma lineage_chainState : chainState.registry.Lineage (some ⟨1⟩) chainLevels := by
  refine .level (l := ⟨⟨1⟩, extendedDecl, Interpreter.root⟩) rfl ⟨_, rfl, .refl _⟩ ?_
  exact .level (l := ⟨⟨0⟩, baseDecl, Interpreter.root⟩) rfl ⟨_, rfl, .refl _⟩ .above

/-- Makes an instance of the second class. -/
def makeSecond : Exec Value := (Evaluator.within 9).construct Interpreter.root ⟨1⟩ [.text "a"]

/-- The field of `B` gets what the constructor of `A` was given, so it was set after that one ended. -/
theorem construction_runs_base_first_chain :
    ∃ v s, makeSecond.run chainState = .ok v s ∧
      (constructInOrder (Evaluator.within 9) ⟨1⟩ chainLevels [.text "a"]).run chainState = .ok v s ∧
      (s.heap.instance? ⟨0⟩).map (fun inst => inst.fields.entries.map fun e => (e.1, e.2.typeName)) =
        some [("x", "string"), ("y", "string")] := by
  have hfields : ((makeSecond.after chainState).heap.instance? ⟨0⟩).map
      (fun inst => inst.fields.entries.map fun e => (e.1, e.2.typeName)) =
        some [("x", "string"), ("y", "string")] := by
    decide +kernel
  have hend : (match makeSecond.run chainState with
      | .ok _ _ => true
      | .error _ _ => false) = true := by
    decide +kernel
  cases hr : makeSecond.run chainState with
  | error e s =>
    rw [hr] at hend
    cases hend
  | ok v s =>
    have hdone : ∀ s', makeSecond.run chainState ≠ .error .exhausted s' := by
      intro s' herror
      cases hr.symm.trans herror
    obtain ⟨hrun, -, -⟩ :=
      construction_runs_base_first lineage_chainState Interpreter.root [.text "a"] 9 hdone
    rw [Exec.after_of_ok hr] at hfields
    exact ⟨v, s, rfl, hrun.symm.trans hr, hfields⟩

end ScriptLang
