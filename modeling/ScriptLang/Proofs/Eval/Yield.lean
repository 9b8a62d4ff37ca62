/-
What the functions without a state give.

The evaluator leaves some of its work to functions that need no state: they look at arguments, compute
with values, look for members and add members to a class.  All their failures are ordinary ones
(`Yields`).  The members that they find or add bring in no function of the host that was not there
before.
-/
import ScriptLang.Proofs.Eval.Effect

namespace ScriptLang

variable {α β : Type}

/-- A result has the property `Q`, and a failure is an ordinary one. -/
def Yields (Q : α → Prop) : Except Cause α → Prop
  | .ok a => Q a
  | .error cause => cause.Ordinary

lemma Yields.bind {Q : α → Prop} {R : β → Prop} {x : Except Cause α} {f : α → Except Cause β}
    (hx : Yields Q x) (hf : ∀ a, Q a → Yields R (f a)) : Yields R (x >>= f) := by
  cases x with
  | ok a => exact hf a hx
  | error cause => exact hx

lemma Yields.ite {p : Prop} [Decidable p] {Q : α → Prop} {x y : Except Cause α} (hx : Yields Q x)
    (hy : Yields Q y) : Yields Q (if p then x else y) := by
  split
  · exact hx
  · exact hy

variable {P : HostFunction → Prop}

/-! ## Arguments and operands -/

lemma yields_arrayIndex (args : List Value) (length : Nat) :
    Yields (fun _ => True) (arrayIndex args length) := by
  unfold arrayIndex
  split
  · exact .ite trivial trivial
  · trivial

lemma yields_objectKey (args : List Value) : Yields (fun _ => True) (objectKey args) := by
  unfold objectKey
  split <;> trivial

lemma Arithmetic.yields_apply (op : Arithmetic) (h : Heap) (left right : Value) :
    Yields (fun _ => True) (op.apply h left right) := by
  unfold apply
  split
  · trivial
  · split <;> trivial

lemma Comparison.yields_apply (op : Comparison) (left right : Value) :
    Yields (fun _ => True) (op.apply left right) := by
  unfold apply
  split <;> trivial

/-! ## Members -/

/-- The functions of the host behind what was found satisfy `P`. -/
def Registry.Found.Meets (P : HostFunction → Prop) : Registry.Found → Prop
  | .field _ _ => True
  | .member _ m => m.Meets P

lemma Registry.meets_of_search {r : Registry} {caller : Option (ClassId × String)} {side : Side}
    {name : String} {id : ClassId} {result : Found} (hr : ∀ id cls, r.get? id = some cls → cls.Meets P)
    (h : r.search caller side name id = .found result) : result.Meets P := by
  unfold search at h
  generalize r.size + 1 = bound at h
  induction bound generalizing id with
  | zero => cases h
  | succ bound ih =>
    simp only [searchWithin] at h
    split at h
    · cases h
    case h_2 cls hcls =>
      split at h
      case isFalse => cases h
      case isTrue =>
      split at h
      case h_1 found hfound =>
        cases h
        -- It was found in this class, under one of the keys.
        obtain ⟨key, -, hkey⟩ := List.exists_of_findSome?_eq_some hfound
        split at hkey
        case h_1 m hm =>
          cases hkey
          exact (hr id cls hcls).member side key m hm
        case h_2 =>
          split at hkey
          · cases hkey
            trivial
          · cases hkey
      case h_2 =>
        split at h
        · cases h
        · exact ih h

lemma Class.Meets.of_members {cls cls' : Class} (h : cls.Meets P) (horigin : cls'.origin.Meets P)
    (hmembers : ∀ side, cls'.members side = cls.members side) : cls'.Meets P :=
  ⟨horigin, fun side => by simpa only [hmembers side] using h.member side⟩

lemma Class.Meets.addMember {cls : Class} {side : Side} {key : String} {m : Member}
    (h : cls.Meets P) (hm : m.Meets P) : (cls.addMember side key m).Meets P := by
  have hinsert : ∀ (table : Table Member), (∀ key' m', table.get? key' = some m' → m'.Meets P) →
      ∀ key' m', (table.insert key m).get? key' = some m' → m'.Meets P := by
    intro table htable key' m' hget
    rw [Table.get?_insert] at hget
    split at hget
    · cases hget
      exact hm
    · exact htable key' m' hget
  cases side with
  | ofInstance =>
    refine ⟨h.origin, fun side' => ?_⟩
    cases side' with
    | ofInstance => exact hinsert _ (h.member .ofInstance)
    | ofClass => exact h.member .ofClass
  | ofClass =>
    refine ⟨h.origin, fun side' => ?_⟩
    cases side' with
    | ofInstance => exact h.member .ofInstance
    | ofClass => exact hinsert _ (h.member .ofClass)

namespace Draft

/-- The functions of the host in the class that is being declared satisfy `P`. -/
def Meets (P : HostFunction → Prop) (d : Draft) : Prop := d.partialClass.Meets P

lemma yields_ensureFree (d : Draft) (side : Side) (key name : String) :
    Yields (fun _ => True) (d.ensureFree side key name) :=
  .ite trivial trivial

lemma Meets.addField {d : Draft} (h : d.Meets P) (side : Side) (key : String)
    (initializer : Option Expr) : (d.addField side key initializer).Meets P := by
  cases side with
  | ofInstance => exact Class.Meets.of_members h h.origin fun side => by cases side <;> rfl
  | ofClass => exact Class.Meets.of_members h h.origin fun side => by cases side <;> rfl

lemma Meets.yields_addHiddenField {d : Draft} (h : d.Meets P) (m : MemberDecl)
    (getter setter : Option Accessor) (initializer : Option Expr) :
    Yields (Meets P) (d.addHiddenField m getter setter initializer) := by
  unfold addHiddenField
  refine .ite ?_ (.ite ?_ h)
  · exact .bind (d.yields_ensureFree _ _ _) fun _ _ => h.addField _ _ _
  · trivial

/-- The accessors that a declaration makes are functions of the script. -/
lemma meets_accessor (auto : FunctionDecl) (accessors : Option Accessor) :
    ∀ m ∈ accessors.map (accessor auto), m.Meets P := by
  intro m hm
  obtain ⟨a, -, rfl⟩ := Option.map_eq_some_iff.mp hm
  cases a <;> trivial

lemma meets_script (decl : Option FunctionDecl) : ∀ m ∈ decl.map Method.script, m.Meets P := by
  intro m hm
  obtain ⟨d, -, rfl⟩ := Option.map_eq_some_iff.mp hm
  trivial

/-- The members of a declaration bring in no function of the host. -/
lemma Meets.yields_add {d : Draft} (h : d.Meets P) (m : MemberDecl) :
    Yields (Meets P) (d.add m) := by
  unfold add
  dsimp only
  cases m.form with
  | field initializer =>
    exact .bind (d.yields_ensureFree _ _ _) fun _ _ => h.addField _ _ _
  | method decl =>
    exact .bind (d.yields_ensureFree _ _ _) fun _ _ => Class.Meets.addMember h trivial
  | constructor decl =>
    refine .ite ?_ ?_
    · trivial
    · exact h
  | property getter setter initializer =>
    refine .bind (d.yields_ensureFree _ _ _) fun _ _ => ?_
    refine .bind (h.yields_addHiddenField m getter setter initializer) fun d' hd' => ?_
    exact Class.Meets.addMember hd' ⟨meets_accessor _ _, meets_accessor _ _⟩
  | indexer getter setter =>
    refine .ite ?_ ?_
    · trivial
    · exact Class.Meets.addMember h ⟨meets_script _, meets_script _⟩

end Draft

end ScriptLang
