/-
Sizes of code.

An expression is larger than its operands, and a statement than the expressions in it.  Some code is
reached through calls and constructions: the defaults of parameters, what a constructor hands to the
class above, and the initial values of fields.  This file bounds the sizes of all the code that a state
holds for this (`State.Within`).  What code declares is smaller than the code itself, so no change
exceeds the bound (`Change.within`).
-/
import ScriptLang.Proofs.Eval.Growth

namespace ScriptLang

/-! ## Sizes of code -/

section Sizes

variable {e : Expr} {st : Stmt}

lemma Expr.sizeOf_form (e : Expr) : sizeOf e.form < sizeOf e := by
  cases e
  simp only [Expr.mk.sizeOf_spec]
  omega

lemma Stmt.sizeOf_form (st : Stmt) : sizeOf st.form < sizeOf st := by
  cases st
  simp only [Stmt.mk.sizeOf_spec]
  omega

/-- An operand is smaller than the expression. -/
lemma ExprForm.sizeOf_of_mem_parts {form : ExprForm} (h : e ∈ form.parts) :
    sizeOf e < sizeOf form := by
  cases form with
  | member target name =>
    cases List.mem_singleton.mp h
    simp only [ExprForm.member.sizeOf_spec]
    omega
  | index target arguments | call target arguments | new target arguments =>
    simp only [ExprForm.index.sizeOf_spec, ExprForm.call.sizeOf_spec, ExprForm.new.sizeOf_spec]
    rcases List.mem_cons.mp h with rfl | h
    · omega
    · have hlt := List.sizeOf_lt_of_mem h
      omega
  | unary op fixity operand =>
    cases List.mem_singleton.mp h
    simp only [ExprForm.unary.sizeOf_spec]
    omega
  | binary op left right =>
    simp only [ExprForm.parts, List.mem_cons, List.not_mem_nil, or_false] at h
    simp only [ExprForm.binary.sizeOf_spec]
    rcases h with rfl | rfl <;> omega
  | ternary op first second third =>
    simp only [ExprForm.parts, List.mem_cons, List.not_mem_nil, or_false] at h
    simp only [ExprForm.ternary.sizeOf_spec]
    rcases h with rfl | rfl | rfl <;> omega
  | array items =>
    have hlt : sizeOf e < sizeOf items := List.sizeOf_lt_of_mem h
    simp only [ExprForm.array.sizeOf_spec]
    omega
  | object properties =>
    obtain ⟨⟨key, e'⟩, hmem, rfl⟩ := List.mem_map.mp h
    have hlt := List.sizeOf_lt_of_mem hmem
    simp only [Prod.mk.sizeOf_spec] at hlt
    simp only [ExprForm.object.sizeOf_spec]
    omega
  | classDecl decl =>
    cases decl
    cases Option.mem_toList.mp h
    simp only [ExprForm.classDecl.sizeOf_spec, ClassDecl.mk.sizeOf_spec, Option.some.sizeOf_spec]
    omega
  | _ => cases h

/-- So is an expression in a statement. -/
lemma StmtForm.sizeOf_of_mem_parts {form : StmtForm} (h : e ∈ form.parts) :
    sizeOf e < sizeOf form := by
  cases form with
  | expr e' =>
    cases List.mem_singleton.mp h
    simp only [StmtForm.expr.sizeOf_spec]
    omega
  | «variables» declarators =>
    obtain ⟨⟨name, initializer⟩, hmem, rfl⟩ := List.mem_filterMap.mp h
    have hlt := List.sizeOf_lt_of_mem hmem
    simp only [Prod.mk.sizeOf_spec, Option.some.sizeOf_spec] at hlt
    simp only [StmtForm.variables.sizeOf_spec]
    omega
  | classDecl decl =>
    cases decl
    cases Option.mem_toList.mp h
    simp only [StmtForm.classDecl.sizeOf_spec, ClassDecl.mk.sizeOf_spec, Option.some.sizeOf_spec]
    omega
  | ifElse condition onTrue onFalse =>
    cases List.mem_singleton.mp h
    simp only [StmtForm.ifElse.sizeOf_spec]
    omega
  | whileLoop condition body =>
    cases List.mem_singleton.mp h
    simp only [StmtForm.whileLoop.sizeOf_spec]
    omega
  | doWhile body condition =>
    cases List.mem_singleton.mp h
    simp only [StmtForm.doWhile.sizeOf_spec]
    omega
  | switch discriminant cases default =>
    simp only [StmtForm.switch.sizeOf_spec]
    rcases List.mem_cons.mp h with rfl | h
    · omega
    · obtain ⟨⟨test, body⟩, hmem, rfl⟩ := List.mem_map.mp h
      have hlt := List.sizeOf_lt_of_mem hmem
      simp only [Prod.mk.sizeOf_spec] at hlt
      show sizeOf test < _
      omega
  | returnValue value =>
    cases Option.mem_toList.mp h
    simp only [StmtForm.returnValue.sizeOf_spec, Option.some.sizeOf_spec]
    omega
  | _ => cases h

lemma StmtForm.sizeOf_of_forLoop (init : List Stmt) {condition : Option Expr} {increment : List Expr}
    (body : Stmt) (h : e ∈ condition.toList ++ increment) :
    sizeOf e < sizeOf (StmtForm.forLoop init condition increment body) := by
  simp only [StmtForm.forLoop.sizeOf_spec]
  rcases List.mem_append.mp h with h | h
  · cases Option.mem_toList.mp h
    simp only [Option.some.sizeOf_spec]
    omega
  · have hlt := List.sizeOf_lt_of_mem h
    omega

lemma StmtForm.sizeOf_of_mem_branches {form : StmtForm} (h : st ∈ form.branches) :
    sizeOf st < sizeOf form := by
  cases form with
  | ifElse condition onTrue onFalse =>
    simp only [StmtForm.ifElse.sizeOf_spec]
    rcases List.mem_cons.mp h with rfl | h
    · omega
    · cases Option.mem_toList.mp h
      simp only [Option.some.sizeOf_spec]
      omega
  | _ => cases h

/-- What a function evaluates before its first statement is smaller than the function. -/
lemma FunctionDecl.sizeOf_of_mem_opening {decl : FunctionDecl} (h : e ∈ decl.opening) :
    sizeOf e < sizeOf decl := by
  obtain ⟨name, parameters, body, place⟩ := decl
  simp only [FunctionDecl.mk.sizeOf_spec]
  rcases List.mem_append.mp h with h | h
  · obtain ⟨⟨pname, optional, default⟩, hmem, rfl⟩ := List.mem_filterMap.mp h
    have hlt := List.sizeOf_lt_of_mem hmem
    simp only [Parameter.mk.sizeOf_spec, Option.some.sizeOf_spec] at hlt
    omega
  · cases body with
    | nil => cases h
    | cons st rest =>
      cases hcall : st.superCall? with
      | none => simp [Evaluator.splitSuperCall, hcall] at h
      | some arguments =>
        have hmem : e ∈ arguments := by simpa [Evaluator.splitSuperCall, hcall] using h
        have hargs : sizeOf arguments < sizeOf st := by
          unfold Stmt.superCall? at hcall
          split at hcall
          next place callee arguments' hform =>
            split at hcall
            · cases hcall
              have hst := st.sizeOf_form
              simp only [hform, StmtForm.expr.sizeOf_spec, Expr.mk.sizeOf_spec,
                ExprForm.call.sizeOf_spec] at hst
              omega
            · cases hcall
          next => cases hcall
        have hlt := List.sizeOf_lt_of_mem hmem
        simp only [List.cons.sizeOf_spec]
        omega

end Sizes

/-! ## Code below a size -/

section Within

variable (bound : Nat)

/-- What a function evaluates before its first statement is below a size. -/
def FunctionDecl.Within (decl : FunctionDecl) : Prop := ∀ e ∈ decl.opening, sizeOf e < bound

def Method.Within : Method → Prop
  | .script decl => decl.Within bound
  | .host _ => True

def Member.Within : Member → Prop
  | .method m => m.Within bound
  | .property getter setter => (∀ m ∈ getter, m.Within bound) ∧ ∀ m ∈ setter, m.Within bound
  | .indexer getter setter => (∀ m ∈ getter, m.Within bound) ∧ ∀ m ∈ setter, m.Within bound

structure Class.Within (cls : Class) : Prop where
  opening : ∀ e ∈ cls.opening, sizeOf e < bound
  member : ∀ side key m, (cls.members side).get? key = some m → m.Within bound

structure Draft.Within (d : Draft) : Prop where
  initializer : ∀ entry ∈ d.staticInitializers, sizeOf entry.2 < bound
  field : ∀ f ∈ d.partialClass.instanceFields, ∀ e ∈ f.initializer, sizeOf e < bound
  constructor : ∀ decl ∈ d.constructor, decl.Within bound
  member : ∀ side key m, (d.partialClass.members side).get? key = some m → m.Within bound

def Function.Within : Function → Prop
  | .script decl _ => decl.Within bound
  | .host _ => True
  | .bound _ m _ => m.Within bound

/-- All the code that calls and constructions reach before a first statement is below a size. -/
structure State.Within (s : State) : Prop where
  function : ∀ id f, s.heap.function? id = some f → f.Within bound
  cls : ∀ id cls, s.registry.get? id = some cls → cls.Within bound

/-- So is the code that a task runs. -/
def Task.Within : Task → Prop
  | .evaluate _ e => sizeOf e < bound
  | .assign _ e _ => sizeOf e < bound
  | .execute _ st => sizeOf st < bound
  | .invoke _ decl _ => decl.Within bound
  | _ => True

end Within

section Mono

variable {bound bound' : Nat} (hle : bound ≤ bound')

include hle

lemma FunctionDecl.Within.mono {decl : FunctionDecl} (h : decl.Within bound) : decl.Within bound' :=
  fun e he => Nat.lt_of_lt_of_le (h e he) hle

lemma Method.Within.mono {m : Method} (h : m.Within bound) : m.Within bound' := by
  cases m with
  | script => exact FunctionDecl.Within.mono hle h
  | host => trivial

lemma Member.Within.mono {m : Member} (h : m.Within bound) : m.Within bound' := by
  cases m with
  | method => exact Method.Within.mono hle h
  | property | indexer => exact ⟨fun m hm => (h.1 m hm).mono hle, fun m hm => (h.2 m hm).mono hle⟩

lemma Class.Within.mono {cls : Class} (h : cls.Within bound) : cls.Within bound' :=
  ⟨fun e he => Nat.lt_of_lt_of_le (h.opening e he) hle,
    fun side key m hm => (h.member side key m hm).mono hle⟩

lemma Function.Within.mono {f : Function} (h : f.Within bound) : f.Within bound' := by
  cases f with
  | script => exact FunctionDecl.Within.mono hle h
  | host => trivial
  | bound => exact Method.Within.mono hle h

lemma Task.Within.mono {t : Task} (h : t.Within bound) : t.Within bound' := by
  cases t with
  | evaluate | assign | execute => exact Nat.lt_of_lt_of_le h hle
  | invoke => exact FunctionDecl.Within.mono hle h
  | _ => trivial

end Mono

/-! ## Classes that are declared -/

lemma FunctionDecl.within_sizeOf (decl : FunctionDecl) : decl.Within (sizeOf decl) :=
  fun _ he => sizeOf_of_mem_opening he

/-- Automatic accessors evaluate nothing before their first statement. -/
lemma Draft.within_accessor {bound : Nat} {auto : FunctionDecl} (hauto : auto.opening = [])
    (accessor : Option Accessor) (h : ∀ decl, accessor = some (.custom decl) → decl.Within bound) :
    ∀ m ∈ accessor.map (Draft.accessor auto), m.Within bound := by
  intro m hm
  obtain ⟨a, ha, rfl⟩ := Option.map_eq_some_iff.mp hm
  cases a with
  | auto =>
    intro e he
    rw [hauto] at he
    cases he
  | custom decl => exact h decl ha

namespace Draft.Within

variable {bound : Nat} {d : Draft} {side : Side} {key : String}

lemma addField (h : d.Within bound) {initializer : Option Expr}
    (hinitializer : ∀ e ∈ initializer, sizeOf e < bound) :
    (d.addField side key initializer).Within bound := by
  cases side with
  | ofInstance =>
    refine ⟨h.initializer, fun f hf => ?_, h.constructor, h.member⟩
    rcases List.mem_append.mp hf with hf | hf
    · exact h.field f hf
    · cases List.mem_singleton.mp hf
      exact hinitializer
  | ofClass =>
    refine ⟨fun entry he => ?_, h.field, h.constructor, fun side => ?_⟩
    · rcases List.mem_append.mp he with he | he
      · exact h.initializer entry he
      · obtain ⟨e, rfl, rfl⟩ := Option.map_eq_some_iff.mp (Option.mem_toList.mp he)
        exact hinitializer e rfl
    · cases side
      · exact h.member .ofInstance
      · exact h.member .ofClass

lemma addMember (h : d.Within bound) {m : Member} (hm : m.Within bound) :
    (d.addMember side key m).Within bound := by
  have hinsert : ∀ (table : Table Member), (∀ key m, table.get? key = some m → m.Within bound) →
      ∀ key' m', (table.insert key m).get? key' = some m' → m'.Within bound := by
    intro table htable key' m' hget
    rw [Table.get?_insert] at hget
    split at hget
    · cases hget
      exact hm
    · exact htable key' m' hget
  cases side with
  | ofInstance =>
    refine ⟨h.initializer, h.field, h.constructor, fun side => ?_⟩
    cases side
    · exact hinsert _ (h.member .ofInstance)
    · exact h.member .ofClass
  | ofClass =>
    refine ⟨h.initializer, h.field, h.constructor, fun side => ?_⟩
    cases side
    · exact h.member .ofInstance
    · exact hinsert _ (h.member .ofClass)

/-- The code of a class is smaller than its declaration. -/
lemma of_ofDecl {decl : ClassDecl} {parent : Option ClassId} {c : Context} {draft : Draft}
    (h : Draft.ofDecl decl parent c = .ok draft) : draft.Within (sizeOf decl) := by
  refine Draft.ofDecl_induct h ⟨nofun, nofun, nofun, fun side => ?_⟩ fun m hm d d' hd hadds => ?_
  · cases side <;> exact fun _ _ hm => by cases hm
  · have hsize : sizeOf m.form < sizeOf decl := by
      have hlt := List.sizeOf_lt_of_mem hm
      cases m
      cases decl
      simp only [MemberDecl.mk.sizeOf_spec, ClassDecl.mk.sizeOf_spec] at hlt ⊢
      omega
    have hdecl : ∀ f : FunctionDecl, sizeOf f < sizeOf m.form → f.Within (sizeOf decl) :=
      fun f hf => f.within_sizeOf.mono (by omega)
    cases hadds with
    | @field initializer hform =>
      refine hd.addField fun e he => ?_
      cases he
      simp only [hform, MemberForm.field.sizeOf_spec, Option.some.sizeOf_spec] at hsize
      omega
    | @method f hform =>
      refine hd.addMember (m := .method (.script f)) (hdecl f ?_)
      simp only [hform, MemberForm.method.sizeOf_spec]
      omega
    | @constructor f hform =>
      refine ⟨hd.initializer, hd.field, fun f' hf' => ?_, hd.member⟩
      cases hf'
      refine hdecl f ?_
      simp only [hform, MemberForm.constructor.sizeOf_spec]
      omega
    | @property getter setter initializer hform _ =>
      refine hd.addMember ⟨within_accessor rfl getter fun f hf => hdecl f ?_,
        within_accessor rfl setter fun f hf => hdecl f ?_⟩
      all_goals
        simp only [hform, hf, MemberForm.property.sizeOf_spec, Option.some.sizeOf_spec,
          Accessor.custom.sizeOf_spec]
        omega
    | @autoProperty getter setter initializer hform _ =>
      refine (hd.addField fun e he => ?_).addMember
        ⟨within_accessor rfl getter fun f hf => hdecl f ?_,
          within_accessor rfl setter fun f hf => hdecl f ?_⟩
      · cases he
        simp only [hform, MemberForm.property.sizeOf_spec, Option.some.sizeOf_spec] at hsize
        omega
      all_goals
        simp only [hform, hf, MemberForm.property.sizeOf_spec, Option.some.sizeOf_spec,
          Accessor.custom.sizeOf_spec]
        omega
    | @indexer getter setter hform =>
      refine hd.addMember (m := .indexer _ _) ⟨fun m hm => ?_, fun m hm => ?_⟩
      all_goals
        obtain ⟨f, hf, rfl⟩ := Option.map_eq_some_iff.mp hm
        refine hdecl f ?_
        simp only [hform, hf, MemberForm.indexer.sizeOf_spec, Option.some.sizeOf_spec]
        omega

lemma finish (h : d.Within bound) (c : Context) : (d.finish c).Within bound := by
  refine ⟨fun e he => ?_, fun side => ?_⟩
  · rcases List.mem_append.mp he with he | he
    · cases hc : d.constructor with
      | none => simp [Draft.finish, hc] at he
      | some decl => exact h.constructor decl hc e (by simpa [Draft.finish, hc] using he)
    · obtain ⟨f, hf, hinitializer⟩ := List.mem_filterMap.mp he
      exact h.field f hf e hinitializer
  · cases side
    · exact h.member .ofInstance
    · exact h.member .ofClass

end Draft.Within

/-! ## The code of a state -/

section Code

variable {bound : Nat} {K : State → State → Prop} {V : Value → State → Prop} {t t' : Task}
  {c : Context} {s s' s₀ : State}

/-- There is a bound for a list if there is one for each of its elements. -/
lemma exists_bound_of_mem {α : Type} {P : Nat → α → Prop}
    (hmono : ∀ {b b' a}, b ≤ b' → P b a → P b' a) (l : List α) (h : ∀ a ∈ l, ∃ b, P b a) :
    ∃ b, ∀ a ∈ l, P b a := by
  induction l with
  | nil => exact ⟨0, nofun⟩
  | cons a l ih =>
    obtain ⟨b, hb⟩ := h a List.mem_cons_self
    obtain ⟨b', hb'⟩ := ih fun x hx => h x (List.mem_cons_of_mem a hx)
    refine ⟨max b b', fun x hx => ?_⟩
    rcases List.mem_cons.mp hx with rfl | hx
    · exact hmono (Nat.le_max_left b b') hb
    · exact hmono (Nat.le_max_right b b') (hb' x hx)

lemma FunctionDecl.exists_within (decl : FunctionDecl) : ∃ bound, decl.Within bound :=
  ⟨sizeOf decl, decl.within_sizeOf⟩

lemma Method.exists_within (m : Method) : ∃ bound, m.Within bound := by
  cases m with
  | script decl => exact decl.exists_within
  | host => exact ⟨0, trivial⟩

lemma Member.exists_within (m : Member) : ∃ bound, m.Within bound := by
  have hpair : ∀ getter setter : Option Method, ∃ bound, (∀ m ∈ getter, m.Within bound) ∧
      ∀ m ∈ setter, m.Within bound := by
    intro getter setter
    obtain ⟨bound, hbound⟩ := exists_bound_of_mem (P := fun b m => m.Within b) (Method.Within.mono ·)
      (getter.toList ++ setter.toList) fun m _ => m.exists_within
    refine ⟨bound, fun m hm => hbound m ?_, fun m hm => hbound m ?_⟩
    · exact List.mem_append_left _ (Option.mem_toList.mpr hm)
    · exact List.mem_append_right _ (Option.mem_toList.mpr hm)
  cases m with
  | method m => exact m.exists_within
  | property getter setter | indexer getter setter => exact hpair getter setter

lemma Class.exists_within (cls : Class) : ∃ bound, cls.Within bound := by
  have hmember : ∀ table : Table Member, ∃ bound, ∀ key m, table.get? key = some m →
      m.Within bound := by
    intro table
    obtain ⟨bound, hbound⟩ := exists_bound_of_mem (P := fun b entry => entry.2.Within b)
      (Member.Within.mono ·) table.entries fun entry _ => entry.2.exists_within
    refine ⟨bound, fun key m hm => ?_⟩
    obtain ⟨l₁, l₂, hentries, -⟩ := List.lookup_eq_some_iff.mp hm
    exact hbound (key, m) (by simp [hentries])
  obtain ⟨b₁, h₁⟩ := exists_bound_of_mem (P := fun b e => sizeOf e < b)
    (fun hle h => Nat.lt_of_lt_of_le h hle) cls.opening fun e _ => ⟨sizeOf e + 1, Nat.lt_succ_self _⟩
  obtain ⟨b₂, h₂⟩ := hmember cls.instanceMembers
  obtain ⟨b₃, h₃⟩ := hmember cls.staticMembers
  refine ⟨max b₁ (max b₂ b₃), fun e he => Nat.lt_of_lt_of_le (h₁ e he) (by omega), fun side => ?_⟩
  cases side with
  | ofInstance => exact fun key m hm => (h₂ key m hm).mono (by omega)
  | ofClass => exact fun key m hm => (h₃ key m hm).mono (by omega)

lemma Function.exists_within (f : Function) : ∃ bound, f.Within bound := by
  cases f with
  | script decl => exact decl.exists_within
  | host => exact ⟨0, trivial⟩
  | bound _ m => exact m.exists_within

lemma Task.exists_within (t : Task) : ∃ bound, t.Within bound := by
  cases t with
  | evaluate _ e | assign _ e => exact ⟨sizeOf e + 1, Nat.lt_succ_self _⟩
  | execute _ st => exact ⟨sizeOf st + 1, Nat.lt_succ_self _⟩
  | invoke _ decl => exact decl.exists_within
  | _ => exact ⟨0, trivial⟩

/-- The code of a state and of a task has some size. -/
lemma State.exists_within (s : State) (t : Task) : ∃ bound, s.Within bound ∧ t.Within bound := by
  obtain ⟨b₁, h₁⟩ := exists_bound_of_mem (P := fun b f => f.Within b) (Function.Within.mono ·)
    s.heap.functions.toList fun f _ => f.exists_within
  obtain ⟨b₂, h₂⟩ := exists_bound_of_mem (P := fun b cls => cls.Within b) (Class.Within.mono ·)
    s.registry.classes.toList fun cls _ => cls.exists_within
  obtain ⟨b₃, h₃⟩ := t.exists_within
  refine ⟨max b₁ (max b₂ b₃), ⟨fun id f hf => ?_, fun id cls hcls => ?_⟩, h₃.mono (by omega)⟩
  · exact (h₁ f (Array.mem_toList_iff.mpr (Array.mem_of_getElem? hf))).mono (by omega)
  · exact (h₂ cls (Array.mem_toList_iff.mpr (Array.mem_of_getElem? hcls))).mono (by omega)

lemma State.Within.addFunction (hs : s.Within bound) {f : Function} (hf : f.Within bound) :
    (s.withHeap (s.heap.addFunction f).2).Within bound := by
  refine ⟨fun id f' hget => ?_, hs.cls⟩
  simp only [withHeap, Heap.function?, Heap.addFunction, Array.getElem?_push] at hget
  split at hget
  · cases hget
    exact hf
  · exact hs.function id f' hget

lemma State.Within.setStaticField (hs : s.Within bound) (id : ClassId) (key : String) (v : Value) :
    (s.withRegistry (s.registry.modify id (·.setField key v))).Within bound := by
  refine ⟨hs.function, fun id' cls' hget => ?_⟩
  simp only [withRegistry, Registry.get?_modify] at hget
  split at hget
  · obtain ⟨cls, hcls, rfl⟩ := Option.map_eq_some_iff.mp hget
    have hwithin := hs.cls id' cls hcls
    refine ⟨hwithin.opening, fun side => ?_⟩
    cases side
    · exact hwithin.member .ofInstance
    · exact hwithin.member .ofClass
  · exact hs.cls id' cls' hget

lemma Sees.within {V : Value → Prop} {target : Target} {name : String} {owner : ClassId} {m : Member}
    (hs : s.Within bound) (h : Sees V c s target name (.member owner m)) : m.Within bound := by
  obtain ⟨caller, -, hsearch⟩ := h.search
  obtain ⟨cls, key, -, hcls, hm, -⟩ := Registry.member_of_search hsearch
  exact (hs.cls owner cls hcls).member _ key m hm

lemma Callable.within {V : Value → Prop} {owner : ClassId} {m : Method} {receiver : Option Value}
    (hs : s.Within bound) (h : Callable V c s owner m receiver) : m.Within bound := by
  cases h with
  | taken hid => exact hs.function _ _ hid
  | @accessor _ _ _ member _ hsees hm =>
    have hmember := hsees.within hs
    cases member with
    | method => cases hm
    | property getter setter | indexer getter setter =>
      rcases List.mem_append.mp hm with hm | hm
      · exact hmember.1 m (Option.mem_toList.mp hm)
      · exact hmember.2 m (Option.mem_toList.mp hm)

/-- A function is smaller than the code that makes it. -/
lemma Task.MakesFunction.within {decl : FunctionDecl} (h : t.MakesFunction c decl)
    (ht : t.Within bound) : decl.Within bound := by
  refine decl.within_sizeOf.mono ?_
  cases h with
  | @expression _ e _ hform =>
    have hlt : sizeOf e < bound := ht
    have hsize := e.sizeOf_form
    simp only [hform, ExprForm.function.sizeOf_spec] at hsize
    omega
  | @statement _ st _ hform =>
    have hlt : sizeOf st < bound := ht
    have hsize := st.sizeOf_form
    simp only [hform, StmtForm.function.sizeOf_spec] at hsize
    omega

/-- How much a task has to run before it comes to a call or to a first statement. -/
noncomputable def Task.weight : Task → Nat
  | .evaluate _ e => sizeOf e + 2
  | .assign _ e _ => sizeOf e + 2
  | .execute _ st => sizeOf st + 2
  | .call _ _ _ => 2
  | .getMember _ _ _ => 2
  | _ => 1

/-- So is a class. -/
lemma Task.MakesClass.sizeOf_lt {decl : ClassDecl} (h : t.MakesClass c decl) :
    sizeOf decl + 2 < t.weight := by
  cases h with
  | @expression _ e _ hform =>
    have hsize := e.sizeOf_form
    simp only [hform, ExprForm.classDecl.sizeOf_spec] at hsize
    simp only [Task.weight]
    omega
  | @statement _ st _ hform =>
    have hsize := st.sizeOf_form
    simp only [hform, StmtForm.classDecl.sizeOf_spec] at hsize
    simp only [Task.weight]
    omega

lemma Task.weight_le (h : t.Within bound) : t.weight ≤ bound + 2 := by
  cases t with
  | evaluate | assign | execute => exact Nat.add_le_add_right (Nat.le_of_lt h) 2
  | _ => simp [Task.weight]

lemma Task.MakesClass.sizeOf_le {decl : ClassDecl} (h : t.MakesClass c decl) (ht : t.Within bound) :
    sizeOf decl ≤ bound := by
  have hlt := h.sizeOf_lt
  have hle := Task.weight_le ht
  omega

/-- No change brings in more code than there was. -/
theorem Change.within (h : Change K V t s₀ s s') (hs : s.Within bound) (ht : t.Within bound) :
    s'.Within bound := by
  cases h with
  | closure hmakes => exact hs.addFunction (f := .script _ _) (hmakes.within ht)
  | taken _ hsees =>
    have hmember : (Member.method _).Within bound := hsees.within hs
    exact hs.addFunction (f := .bound _ _ _) hmember
  | @registered _ c decl _ draft _ _ hmakes hdraft =>
    have hcls : (draft.finish c).Within bound :=
      ((Draft.Within.of_ofDecl hdraft).finish c).mono (hmakes.sizeOf_le ht)
    refine ⟨hs.function, fun id cls' hget => ?_⟩
    simp only [State.withRegistry, Registry.get?_insert] at hget
    split at hget
    · cases hget
      exact hcls
    · exact hs.cls id cls' hget
  | staticSetUp | staticWritten => exact hs.setStaticField _ _ _
  | reserved | labelled | declared | parameter | assigned | array | object | element | property
  | fieldSetUp | fieldWritten | fieldOfHost | printed | cancelled | turned => exact ⟨hs.function, hs.cls⟩

end Code

end ScriptLang
