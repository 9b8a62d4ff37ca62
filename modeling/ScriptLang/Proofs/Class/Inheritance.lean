/-
Inheritance is well-founded, up to classes that are handed in too early.

A class that the host defines extends a registered one, for this is asked before it is registered.  A class
that a script declares extends whatever class value the script gives, and this is not asked.  A script
cannot make up a class value, so the class is registered as well, unless the host has handed in a value
for a class that is not there yet.  Such a class may get itself for a parent when its number is given out
(`class_extends_itself`).

So every class extends an earlier one or one of those that were handed in too early
(`classes_extend_earlier_or_handed_in`).  Where a chain has no class of the latter kind, it ends, and all
its classes are registered.
-/
import ScriptLang.Proofs.Class.References
import ScriptLang.Proofs.Eval.Landing

namespace ScriptLang

/-! ## Registries in which classes extend earlier ones -/

/-- The classes that are visited from a class upward, and what the walks of the registry come to. -/
structure Registry.Walk (r : Registry) (id : ClassId) (ids : List ClassId) : Prop where
  climbs : r.Climbs id ids
  registered : ∀ k ∈ ids, (r.get? k).isSome
  ancestors : r.ancestors id = ids.tail
  derived : ∀ k, r.isExtendedFrom id k = some (ids.tail.contains k)
  /-- To look for members also needs an end of the chain of the class whose code looks for them. -/
  search : ∀ caller side name, (∀ k ∈ caller.map (·.1), r.Ends k) → r.search caller side name id =
    .ofOption (ids.findSome? (r.held caller side name))

lemma Registry.Climbs.walk {r : Registry} {id : ClassId} {ids : List ClassId} (h : r.Climbs id ids) :
    r.Walk id ids := by
  refine ⟨h, fun _ => h.isSome_get?, h.ancestors_eq, fun k => ?_, fun _ _ _ => h.search_eq⟩
  rw [Registry.isExtendedFrom, h.ancestors_eq, Registry.ends_iff.mpr h.ends]
  cases ids.tail.contains k <;> rfl

/-- Classes extend earlier ones, or scripts declared them as extensions of classes of `F`.  From a class
there is a walk if there is no later class of `F` that is extended on the way. -/
structure Registry.Inherits (F : ClassId → Prop) (r : Registry) : Prop where
  parent : r.Descends F
  walk : ∀ id, (r.get? id).isSome →
    (∀ a b, r.Above id a → r.Edge a b → F b → b.index < a.index) → ∃ ids, r.Walk id ids

lemma Registry.Descends.inherits {F : ClassId → Prop} {r : Registry} (h : r.Descends F) :
    r.Inherits F := by
  refine ⟨h, fun id hid hearlier => ?_⟩
  have hlt : ∀ a b, r.Above id a → r.Edge a b → b.index < a.index := by
    rintro a b habove ⟨cls, hcls, hb⟩
    rcases h a cls b hcls hb with hlt | ⟨hforeign, -⟩
    · exact hlt
    · exact hearlier a b habove ⟨cls, hcls, hb⟩ hforeign
  obtain ⟨ids, hids⟩ := Registry.exists_climbs_of_lt hid hlt
  exact ⟨ids, hids.walk⟩

/-! ## Sessions -/

namespace Interpreter

variable {F : ClassId → Prop} {s s' : State}

/-- A host may use all functions, and hands in no classes but those that are registered in `r` and those
of `F`. -/
def handing (F : ClassId → Prop) (r : Registry) : Terms :=
  .knowing F fun f => f.Known (r.Knows F)

/-- The states that a host can bring about that hands in no class before it is registered, but for
those of `F`. -/
def ReachedHanding (F : ClassId → Prop) (s : State) : Prop :=
  ∃ config services s₀, (∀ id, services.operators.Brings id → F id) ∧ start config services = .ok s₀ ∧
    Relation.ReflTransGen (fun s s' => Operation (handing F s.registry) s s') s₀ s

lemma upheld_handing (F : ClassId → Prop) (r : Registry) :
    Upheld (handing F r) (State.KnowingFrom F (fun _ => True) r) :=
  State.KnowingFrom.upheld fun _ hf => ⟨trivial, hf⟩

/-- All that there is in such a state refers to known classes. -/
lemma ReachedHanding.knowing (hs : ReachedHanding F s) : s.Knowing F fun _ => True := by
  obtain ⟨config, services, s₀, hoperators, hstart, hlater⟩ := hs
  induction hlater with
  | refl =>
    refine ((upheld_handing F {}).prepares.start (fun f hf => ?_) ⟨.initial config hoperators, ?_⟩
      hstart).knowing
    · exact HostFunction.known_of_mem_builtins hf _
    · rintro id (hid | hid)
      · simp [Registry.get?] at hid
      · exact .inr hid
  | @tail s s' _ hoperation ih =>
    have hfrom : s.KnowingFrom F (fun _ => True) s.registry := ⟨ih, fun _ => id⟩
    exact ((upheld_handing F s.registry).later hfrom (.single hoperation)).knowing

end Interpreter

/-- **Inheritance is well-founded, up to classes that are handed in too early.**  Whatever a host does, as
long as the classes are in `F` that it hands in before they are registered: a class extends none, an
earlier one, or one of `F`, and in the last case a script declared it.  A walk up from a class ends, visits
registered classes only and gives what the bounded computations of the registry give, unless a class on the
way extends one of `F` that is not earlier.  Members are looked for on behalf of a class, and then its own
walk has to end as well.  All this holds at every point of every run, and the classes
of which instances are set up are registered or in `F`. -/
theorem classes_extend_earlier_or_handed_in {F : ClassId → Prop} {s : State}
    (hs : Interpreter.ReachedHanding F s) :
    s.registry.Inherits F ∧
    ∀ {β : Type} {m : Evaluator → Exec β} (n : Nat),
      Interpreter.Request (Interpreter.handing F s.registry) s m →
      ∀ trail k t s', Part n m s trail k t s' →
        s'.registry.Inherits F ∧ ∀ id ∈ t.built?, s'.registry.Knows F id := by
  have hknowing := hs.knowing
  refine ⟨hknowing.parent.inherits, fun n hm trail k t s' hpart => ?_⟩
  have hserved := hm.served (R := .knowing F fun _ => True) Regime.serves_knowing hknowing n
  obtain ⟨hgood, hdoes⟩ := hpart.allowed (.knowing F fun _ => True) hserved.allowed
  exact ⟨hgood.parent.inherits, hdoes.built⟩

/-- A host hands in the class with the number zero, and there is none. -/
def handedState : State := (Interpreter.setGlobal "v" (.classRef ⟨0⟩)).after newState

/-- Two classes, of which the second extends the first. -/
def derivingScript : List Stmt :=
  [⟨⟨1, 1⟩, .classDecl ⟨"A", none, [], ⟨1, 1⟩⟩⟩,
    ⟨⟨2, 1⟩, .classDecl ⟨"B", some ⟨⟨2, 17⟩, .variable "A"⟩, [], ⟨2, 1⟩⟩⟩]

/-- What the script makes of it. -/
def derivedState : State := (Interpreter.run (Evaluator.within 6) derivingScript).after handedState

/-- The class that was handed in is there in the end, and a class extends it, but a later one. -/
theorem classes_extend_earlier_or_handed_in_derived :
    derivedState.registry.Edge ⟨1⟩ ⟨0⟩ ∧ ∃ ids, derivedState.registry.Walk ⟨1⟩ ids := by
  have hreached : Interpreter.ReachedHanding (· = ⟨0⟩) derivedState := by
    have hhand : Interpreter.Operation (Interpreter.handing (· = ⟨0⟩) newState.registry) newState
        handedState :=
      .setGlobal (v := .classRef ⟨0⟩) "v" fun id hid => .inr (Value.classRef.inj hid).symm
    have hrun : Interpreter.Operation (Interpreter.handing (· = ⟨0⟩) handedState.registry) handedState
        derivedState :=
      .request (m := fun ev => Interpreter.run ev derivingScript) 6 (.run derivingScript)
    have hoperators : ∀ id, (Services.operators {}).Brings id → id = ⟨0⟩ :=
      fun id hid => absurd hid (OperatorTable.not_brings_standard id)
    exact ⟨{}, {}, newState, hoperators, start_newState, .tail (.single hhand) hrun⟩
  have hfirst : (derivedState.registry.get? ⟨0⟩).bind (·.parent) = none := by decide +kernel
  have hsecond : (derivedState.registry.get? ⟨1⟩).bind (·.parent) = some ⟨0⟩ := by decide +kernel
  obtain ⟨cls, hcls, hparent⟩ := Option.bind_eq_some_iff.mp hsecond
  refine ⟨⟨cls, hcls, hparent⟩, ?_⟩
  refine (classes_extend_earlier_or_handed_in hreached).1.walk ⟨1⟩ (by simp [hcls]) ?_
  rintro ⟨a⟩ b - ⟨cls', hcls', hb⟩ rfl
  refine Nat.pos_of_ne_zero ?_
  rintro rfl
  rw [hcls', Option.bind_some, hb] at hfirst
  cases hfirst

/-- A class that extends the value of a variable. -/
def selfExtendingScript : List Stmt :=
  [⟨⟨1, 1⟩, .classDecl ⟨"A", some ⟨⟨1, 1⟩, .variable "v"⟩, [], ⟨1, 1⟩⟩⟩]

/-- Looking for a member goes round in a class that is its own parent and does not have it. -/
lemma Registry.searchWithin_of_self {r : Registry} {caller : Option (ClassId × String)} {side : Side}
    {name : String} {id : ClassId} (hedge : r.Edge id id) (hheld : r.held caller side name id = none)
    (bound : Nat) : r.searchWithin caller side name bound id = .endless := by
  obtain ⟨cls, hcls, hparent⟩ := hedge
  simp only [Registry.held, hcls, Option.bind_some] at hheld
  induction bound with
  | zero => rfl
  | succ bound ih =>
    simp only [Registry.searchWithin, hcls, hheld, hparent, ih]
    split <;> rfl

/-- A script declares the class that was handed in as an extension of itself, and the chain of this class
has no end. -/
theorem class_extends_itself :
    handedState.registry.get? ⟨0⟩ = none ∧ ∃ v s,
      (Interpreter.run (Evaluator.within 6) selfExtendingScript).run handedState = .ok v s ∧
      s.registry.Edge ⟨0⟩ ⟨0⟩ ∧
      ∀ bound, s.registry.searchWithin none .ofInstance "x" bound ⟨0⟩ = .endless := by
  have hnone : (handedState.registry.get? ⟨0⟩).isNone = true := by decide +kernel
  obtain ⟨v, s, hrun, hparent, hheld⟩ := Exec.exists_run_of_gives
    (m := Interpreter.run (Evaluator.within 6) selfExtendingScript) (s := handedState)
    (P := fun _ s => (s.registry.get? ⟨0⟩).bind (·.parent) = some ⟨0⟩ ∧
      (s.registry.held none .ofInstance "x" ⟨0⟩).isNone = true) (by decide +kernel)
  have hedge : s.registry.Edge ⟨0⟩ ⟨0⟩ := by
    obtain ⟨cls, hcls, hp⟩ := Option.bind_eq_some_iff.mp hparent
    exact ⟨cls, hcls, hp⟩
  exact ⟨Option.isNone_iff_eq_none.mp hnone, v, s, hrun, hedge,
    Registry.searchWithin_of_self hedge (Option.isNone_iff_eq_none.mp hheld)⟩

end ScriptLang
