/-
Classes are closed once they are registered.

A script can declare classes and set the fields of classes themselves.  It can do nothing else to a class:
from the point at which a class is registered on, its number stands for it, and all that changes are the
values of the fields that it has itself.  New classes come after those that are there
(`Registry.Continues`).  The same is true of what was printed.

All this follows from how states grow.  The main result is `classes_stay_closed`.
-/
import ScriptLang.Proofs.Eval.Sessions

namespace ScriptLang

/-- The registry `r'` lists the classes of `r` at the same places, apart from the values of their own
fields, and further classes after them. -/
def Registry.Continues (r r' : Registry) : Prop :=
  ∃ revised added, r'.classes.toList = revised ++ added ∧
    List.Forall₂ Class.Revised r.classes.toList revised

namespace Registry.Continues

variable {r r' : Registry}

lemma of_get? (h : ∀ {id cls}, r.get? id = some cls →
    ∃ cls', r'.get? id = some cls' ∧ cls.Revised cls') : r.Continues r' := by
  have hlist : ∀ i (hi : i < r.classes.toList.length), ∃ hi' : i < r'.classes.toList.length,
      (r.classes.toList.get ⟨i, hi⟩).Revised (r'.classes.toList.get ⟨i, hi'⟩) := by
    intro i hi
    have hget : r.get? ⟨i⟩ = some (r.classes.toList.get ⟨i, hi⟩) := by simp [Registry.get?]
    obtain ⟨cls', hget, hrevised⟩ := h hget
    obtain ⟨hi', rfl⟩ := Array.getElem?_eq_some_iff.mp hget
    exact ⟨by simpa using hi', by simpa using hrevised⟩
  have hlen : r.classes.toList.length ≤ r'.classes.toList.length := by
    by_contra hlt
    obtain ⟨hi', -⟩ := hlist r'.classes.toList.length (by omega)
    omega
  refine ⟨r'.classes.toList.take r.classes.toList.length, r'.classes.toList.drop r.classes.toList.length,
    (List.take_append_drop _ _).symm, ?_⟩
  refine List.forall₂_iff_get.mpr ⟨(List.length_take_of_le hlen).symm, fun i hi hi' => ?_⟩
  obtain ⟨_, hrevised⟩ := hlist i hi
  simpa using hrevised

end Registry.Continues

/-- What persists of a state are its classes, too. -/
lemma State.Persists.continues {s s' : State} (h : s.Persists s') : s.registry.Continues s'.registry :=
  .of_get? h.cls

namespace Served

variable {α : Type} {n k : Nat} {m : Evaluator → Exec α} {s s' : State} {trail : List Task} {t : Task}

/-- What there is at any point of a run persists to its end. -/
lemma persists_of_part {R : Regime} (h : Served R n m s) (hpart : Part n m s trail k t s') :
    s'.Persists ((m (Evaluator.within n)).after s) := by
  obtain ⟨hgood, hdoes⟩ := hpart.allowed R h.allowed
  have hleft := (Evaluator.within_heeds R k).perform t s' hgood hdoes
  exact (R.persists_of_left hleft).trans (hpart.persists R h.allowed h.persists)

end Served

/-- **Classes are closed once they are registered.**  Whatever a script does and however its run ends, each
class that there was before keeps its number and everything but the values of its own fields, of which none
is added.  New classes come after those that there were, and new lines after those that were printed.  From
each point of the run on, the same is true of what there is at this point. -/
theorem classes_stay_closed (n : Nat) (body : List Stmt) (s : State) :
    let script := fun ev => Interpreter.run ev body
    let s' := (script (Evaluator.within n)).after s
    (∀ id cls, s.registry.get? id = some cls →
      ∃ cls', s'.registry.get? id = some cls' ∧ cls.Revised cls') ∧
    s.registry.Continues s'.registry ∧ s.output.toList <+: s'.output.toList ∧
    ∀ trail k t s₁, Part n script s trail k t s₁ →
      s₁.registry.Continues s'.registry ∧ s₁.output.toList <+: s'.output.toList := by
  intro script s'
  have hserved : Served .growing n script s := .run trivial trivial
  have hgrows : s.Grows s' := Regime.growing.near_after hserved.left
  refine ⟨fun id cls hcls => hgrows.cls hcls, hgrows.persists.continues, hgrows.output,
    fun trail k t s₁ hpart => ?_⟩
  have hpersists := hserved.persists_of_part hpart
  exact ⟨hpersists.continues, hpersists.output⟩

/-- An interpreter with a class `A` that has a field `n` itself. -/
def fieldState : State :=
  { plainState with
    scopes := #[{ bindings := .ofList [("A", ⟨.classDecl, some (.classRef ⟨0⟩)⟩)] }]
    registry := ⟨#[⟨"A", none, .script Interpreter.root none, {}, {}, [],
      .ofList [("n", .boolean true)]⟩]⟩ }

/-- A script that sets the field, declares another class and fails. -/
def failingScript : List Stmt :=
  [⟨⟨1, 1⟩, .expr ⟨⟨1, 5⟩, .binary "=" ⟨⟨1, 2⟩, .member ⟨⟨1, 1⟩, .variable "A"⟩ "n"⟩
      ⟨⟨1, 7⟩, .literal (.boolean false)⟩⟩⟩,
    ⟨⟨2, 1⟩, .classDecl ⟨"B", some ⟨⟨2, 17⟩, .variable "A"⟩, [], ⟨2, 1⟩⟩⟩,
    ⟨⟨3, 1⟩, .expr ⟨⟨3, 1⟩, .variable "missing"⟩⟩]

/-- The truth values of the fields that a class has itself. -/
def Class.flags (cls : Class) : List (String × Option Bool) :=
  cls.staticFields.entries.map fun entry => (entry.1, match entry.2 with
    | .boolean b => some b
    | _ => none)

/-- After the script failed, the field has another value and the second class is there.  The first class
is the same as before. -/
theorem classes_stay_closed_failing :
    let s' := (Interpreter.run (Evaluator.within 6) failingScript).after fieldState
    (Interpreter.run (Evaluator.within 6) failingScript).run fieldState =
        .error (.fault ⟨.undefined "missing", some ⟨3, 1⟩⟩) s' ∧
      s'.registry.classes.toList.map (fun cls => (cls.name, cls.flags)) =
        [("A", [("n", some false)]), ("B", [])] ∧
      ∃ cls cls', fieldState.registry.get? ⟨0⟩ = some cls ∧ cls.flags = [("n", some true)] ∧
        s'.registry.get? ⟨0⟩ = some cls' ∧ cls.Revised cls' := by
  intro s'
  obtain ⟨cls', hcls', hrevised⟩ := (classes_stay_closed 6 failingScript fieldState).1 ⟨0⟩ _ rfl
  refine ⟨rfl, ?_, _, cls', rfl, ?_, hcls', hrevised⟩
  · decide +kernel
  · decide +kernel

end ScriptLang
