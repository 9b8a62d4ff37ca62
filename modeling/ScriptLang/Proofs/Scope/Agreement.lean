/-
Looking up a name and assigning to it.

The two walk through the scopes on their own, each until it finds one that has the name.  They end in the
same one: the home of the name (`Context.Home`), which is the nearest context around the code whose scope
has the name, also if the name is only reserved there.  What stands behind the name in this scope decides
how both of them end (`Context.Home.run_lookup`, `Context.Home.run_assignVariable`).

An assignment changes one scope under one name, and contexts share their scopes with others.  So the new
value is seen from all the contexts in which the name has the same home, and nothing else is seen to
change (`lookup_agrees_with_assignment`).
-/
import ScriptLang.Proofs.Eval.Growth
import ScriptLang.Proofs.Eval.Surface
import ScriptLang.Proofs.Eval.ValueRules

namespace ScriptLang

/-! ## Homes of names -/

/-- The context `d` is the nearest one around `c`, with `c` itself, whose scope has the name, be it with a
value or without. -/
inductive Context.Home (s : State) (name : String) : Context → Context → Prop
  | here {c} : (s.scopeAt c.scope).bindings.contains name = true → Home s name c c
  | around {c c' d} : (s.scopeAt c.scope).bindings.contains name = false → c.enclosing = some c' →
      Home s name c' d → Home s name c d

/-- The name has the same home in the two contexts. -/
def Context.ShareHome (s : State) (name : String) (c c' : Context) : Prop :=
  ∃ d d', c.Home s name d ∧ c'.Home s name d' ∧ d.scope = d'.scope

variable {s s' : State} {name : String} {c c' d d' : Context} {v : Value}

namespace Context

/-- Names are looked for in the scope of a context and then where its enclosing context looks for them. -/
lemma scopes_eq (c : Context) : c.scopes = c.scope :: (c.enclosing.map scopes).getD [] := by
  cases c <;> rfl

/-- A name has a home, or none of the contexts around has it. -/
lemma home_or_absent (s : State) (name : String) (c : Context) :
    (∃ d, c.Home s name d) ∨ ∀ id ∈ c.scopes, (s.scopeAt id).bindings.contains name = false := by
  have hstep : ∀ c : Context, (∀ c', c.enclosing = some c' → (∃ d, c'.Home s name d) ∨
      ∀ id ∈ c'.scopes, (s.scopeAt id).bindings.contains name = false) →
      (∃ d, c.Home s name d) ∨
        ∀ id ∈ c.scopes, (s.scopeAt id).bindings.contains name = false := by
    intro c ih
    cases hhere : (s.scopeAt c.scope).bindings.contains name with
    | true => exact .inl ⟨c, .here hhere⟩
    | false =>
      rw [scopes_eq]
      cases henclosing : c.enclosing with
      | none =>
        refine .inr fun id hid => ?_
        rw [List.mem_singleton.mp hid]
        exact hhere
      | some c' =>
        rcases ih c' henclosing with ⟨d, hd⟩ | habsent
        · exact .inl ⟨d, .around hhere henclosing hd⟩
        · refine .inr fun id hid => ?_
          rcases List.mem_cons.mp hid with rfl | hid
          · exact hhere
          · exact habsent id hid
  induction c with
  | root => exact hstep _ nofun
  | block _ _ _ ih | function _ _ ih | method _ _ _ _ ih =>
    refine hstep _ fun c' hc' => ?_
    cases hc'
    exact ih

namespace Home

lemma contains (h : c.Home s name d) : (s.scopeAt d.scope).bindings.contains name = true := by
  induction h with
  | here hhere => exact hhere
  | around _ _ _ ih => exact ih

/-- A name has one home. -/
lemma eq (h : c.Home s name d) (h' : c.Home s name d') : d = d' := by
  induction h with
  | here hhere =>
    cases h' with
    | here => rfl
    | around hnot => simp [hhere] at hnot
  | around hnot henclosing _ ih =>
    cases h' with
    | here hhere => simp [hhere] at hnot
    | around _ henclosing' hd =>
      cases henclosing.symm.trans henclosing'
      exact ih hd

/-- The home is a matter of which scopes have the name. -/
lemma of_contains_eq (hsame : ∀ id, (s'.scopeAt id).bindings.contains name =
    (s.scopeAt id).bindings.contains name) (h : c.Home s name d) : c.Home s' name d := by
  induction h with
  | here hhere => exact .here ((hsame _).trans hhere)
  | around hnot henclosing _ ih => exact .around ((hsame _).trans hnot) henclosing ih

end Home

end Context

/-! ## How the two walks end -/

/-- How a computation ends, apart from the state that it leaves. -/
def Exec.answer {α : Type} (m : Exec α) (s : State) : Except Halt α :=
  match m.run s with
  | .ok a _ => .ok a
  | .error e _ => .error e

namespace Binding

/-- What looking up a name gives that stands for a binding. -/
def read (name : String) : Binding → Except Cause Value
  | ⟨_, none⟩ => .error (.unassigned name)
  | ⟨_, some v⟩ => .ok v

/-- Whether the value of a binding can be replaced, or why it cannot. -/
def accept (name : String) : Binding → Except Cause Unit
  | ⟨_, none⟩ => .error (.unassigned name)
  | ⟨kind, some _⟩ => if kind.isMutable then .ok () else .error (.constantBinding name)

lemma accept_eq_ok_iff {binding : Binding} :
    binding.accept name = .ok () ↔ binding.value.isSome ∧ binding.kind.isMutable = true := by
  rcases binding with ⟨kind, _ | old⟩
  · simp [accept]
  · cases kind <;> simp [accept, BindingKind.isMutable]

end Binding

namespace Exec

variable {α : Type}

/-- Walks through scopes up to the first one that has a name and acts on what stands behind it there. -/
def atHome (name kept : String) (act : ScopeId → Scope → Binding → Exec α) : List ScopeId → Exec α
  | [] => fail (.undefined name)
  | id :: ids => do
    let scope ← scopeOf id
    match scope.bindings.get? kept with
    | some binding => act id scope binding
    | none => atHome name kept act ids

/-- Looking up a name is such a walk. -/
lemma lookupIn_eq (name kept : String) (ids : List ScopeId) :
    lookupIn name kept ids = atHome name kept (fun _ _ binding => ofExcept (binding.read name)) ids := by
  induction ids with
  | nil => rfl
  | cons id ids ih =>
    refine bind_congr fun scope => ?_
    simp only [Scope.lookup]
    rcases scope.bindings.get? kept with _ | ⟨kind, _ | v⟩
    · exact ih
    · rfl
    · rfl

/-- Assigning to a name is such a walk. -/
lemma assignIn_eq (name kept : String) (v : Value) (ids : List ScopeId) :
    assignIn name kept v ids = atHome name kept (fun id scope binding => do
      ofExcept (binding.accept kept)
      setScope id (scope.declare kept binding.kind v)) ids := by
  induction ids with
  | nil => rfl
  | cons id ids ih =>
    refine bind_congr fun scope => ?_
    simp only [Scope.assign]
    rcases scope.bindings.get? kept with _ | ⟨kind, _ | old⟩
    · exact ih
    · rfl
    · cases kind <;> rfl

variable {act : ScopeId → Scope → Binding → Exec α} {kept : String}

/-- A scope that does not have the name is passed. -/
lemma run_atHome_skip {id : ScopeId} {ids : List ScopeId}
    (h : (s.scopeAt id).bindings.contains kept = false) :
    (atHome name kept act (id :: ids)).run s = (atHome name kept act ids).run s := by
  have hscope : (scopeOf id).run s = .ok (s.scopeAt id) s := rfl
  have hget : (s.scopeAt id).bindings.get? kept = none := by simpa [Table.contains] using h
  simp only [atHome, run_bind_ok hscope, hget]

lemma run_atHome_of_absent {ids : List ScopeId}
    (h : ∀ id ∈ ids, (s.scopeAt id).bindings.contains kept = false) :
    (atHome name kept act ids).run s = .error (.fault ⟨.undefined name, none⟩) s := by
  induction ids with
  | nil => rfl
  | cons id ids ih =>
    rw [run_atHome_skip (h id List.mem_cons_self)]
    exact ih fun id' hid' => h id' (List.mem_cons_of_mem id hid')

/-- The walk through the scopes of a context ends at the home of the name. -/
lemma run_atHome_of_home {binding : Binding} (h : c.Home s kept d)
    (hget : (s.scopeAt d.scope).bindings.get? kept = some binding) :
    (atHome name kept act c.scopes).run s = (act d.scope (s.scopeAt d.scope) binding).run s := by
  induction h with
  | @here c =>
    have hscope : (scopeOf c.scope).run s = .ok (s.scopeAt c.scope) s := rfl
    rw [Context.scopes_eq]
    simp only [atHome, run_bind_ok hscope, hget]
  | around hnot henclosing _ ih =>
    rw [Context.scopes_eq, run_atHome_skip hnot, henclosing]
    exact ih hget

end Exec

/-! ## What an assignment changes -/

/-- The state after an assignment to a name with a given home. -/
def State.assigned (s : State) (id : ScopeId) (name : String) (kind : BindingKind) (v : Value) : State :=
  s.withScope id ((s.scopeAt id).declare name kind v)

/-- Only the binding that is assigned to is another one. -/
lemma State.get?_assigned {id : ScopeId} (hid : (s.scopeAt id).bindings.contains name = true)
    (kind : BindingKind) (v : Value) (id' : ScopeId) (other : String) :
    ((s.assigned id name kind v).scopeAt id').bindings.get? other =
      if id' = id ∧ other = name then some ⟨kind, some v⟩
      else (s.scopeAt id').bindings.get? other := by
  -- A scope that is not there has no names.
  have hlt : id.index < s.scopes.size := by
    by_contra hle
    have hnone : s.scopes[id.index]? = none := Array.getElem?_eq_none (by omega)
    rw [State.scopeAt, hnone] at hid
    cases hid
  by_cases heq : id' = id
  · subst heq
    have hscope : (s.assigned id' name kind v).scopeAt id' = (s.scopeAt id').declare name kind v := by
      simp [State.assigned, State.scopeAt, State.withScope, hlt]
    simp only [hscope, Scope.declare, Table.get?_insert, true_and]
  · have hscope : (s.assigned id name kind v).scopeAt id' = s.scopeAt id' :=
      (s.scopeAt_withScope id id' _).elim (fun h => absurd h.2 heq) fun h => h
    simp [hscope, heq]

/-- Every scope has the same names as before. -/
lemma State.contains_assigned {id : ScopeId} (hid : (s.scopeAt id).bindings.contains name = true)
    (kind : BindingKind) (v : Value) (id' : ScopeId) (other : String) :
    ((s.assigned id name kind v).scopeAt id').bindings.contains other =
      (s.scopeAt id').bindings.contains other := by
  rw [Table.contains, State.get?_assigned hid]
  split
  next h =>
    obtain ⟨rfl, rfl⟩ := h
    exact hid.symm
  next => rfl

/-! ## Names as they are written -/

section Exact

variable (hs : s.services.naming = .exact)

include hs

/-- A name that has no home is undefined. -/
lemma Exec.run_lookup_of_absent
    (h : ∀ id ∈ c.scopes, (s.scopeAt id).bindings.contains name = false) :
    (Exec.lookup c name).run s = .error (.fault ⟨.undefined name, none⟩) s := by
  have hrun : (Exec.lookup c name).run s =
      (Exec.lookupIn name (s.services.naming.keep name) c.scopes).run s := rfl
  rw [hrun, hs, Exec.lookupIn_eq]
  exact Exec.run_atHome_of_absent h

lemma Exec.run_assignVariable_of_absent
    (h : ∀ id ∈ c.scopes, (s.scopeAt id).bindings.contains name = false) :
    (Exec.assignVariable c name v).run s = .error (.fault ⟨.undefined name, none⟩) s := by
  have hrun : (Exec.assignVariable c name v).run s =
      (Exec.assignIn name (s.services.naming.keep name) v c.scopes).run s := rfl
  rw [hrun, hs, Exec.assignIn_eq]
  exact Exec.run_atHome_of_absent h

namespace Context.Home

variable {binding : Binding}

/-- Looking up a name reads what stands behind it at its home. -/
lemma run_lookup (h : c.Home s name d)
    (hget : (s.scopeAt d.scope).bindings.get? name = some binding) :
    (Exec.lookup c name).run s = (Exec.ofExcept (binding.read name)).run s := by
  have hrun : (Exec.lookup c name).run s =
      (Exec.lookupIn name (s.services.naming.keep name) c.scopes).run s := rfl
  rw [hrun, hs, Exec.lookupIn_eq]
  exact Exec.run_atHome_of_home h hget

/-- Assigning to a name replaces what stands behind it at its home, if that can be done. -/
lemma run_assignVariable (h : c.Home s name d)
    (hget : (s.scopeAt d.scope).bindings.get? name = some binding) :
    (Exec.assignVariable c name v).run s =
      match binding.accept name with
      | .ok _ => .ok () (s.assigned d.scope name binding.kind v)
      | .error cause => .error (.fault ⟨cause, none⟩) s := by
  have hrun : (Exec.assignVariable c name v).run s =
      (Exec.assignIn name (s.services.naming.keep name) v c.scopes).run s := rfl
  rw [hrun, hs, Exec.assignIn_eq]
  refine (Exec.run_atHome_of_home h hget).trans ?_
  have hkeep : Naming.exact.keep name = name := rfl
  rw [hkeep]
  cases binding.accept name <;> rfl

end Context.Home

end Exact

/-- What is seen after an assignment. -/
lemma Exec.lookup_assigned (hs : s.services.naming = .exact) (h : c.Home s name d)
    (kind : BindingKind) (v : Value) (c' : Context) (other : String) :
    (other = name ∧ c.ShareHome s name c' →
      (Exec.lookup c' other).run (s.assigned d.scope name kind v) =
        .ok v (s.assigned d.scope name kind v)) ∧
    (¬(other = name ∧ c.ShareHome s name c') →
      (Exec.lookup c' other).answer (s.assigned d.scope name kind v) =
        (Exec.lookup c' other).answer s) := by
  have hget := s.get?_assigned h.contains kind v
  have hcontains := s.contains_assigned h.contains kind v
  have hs' : (s.assigned d.scope name kind v).services.naming = .exact := hs
  generalize s.assigned d.scope name kind v = s' at hget hcontains hs'
  constructor
  · rintro ⟨rfl, d₁, d', hd₁, hd', hscope⟩
    cases h.eq hd₁
    have hbinding := (hget d'.scope other).trans (if_pos ⟨hscope.symm, rfl⟩)
    exact (hd'.of_contains_eq (hcontains · other)).run_lookup hs' hbinding
  · intro hother
    rcases c'.home_or_absent s other with ⟨d', hd'⟩ | habsent
    · obtain ⟨binding, hbinding⟩ := Option.isSome_iff_exists.mp hd'.contains
      have hsame : (s'.scopeAt d'.scope).bindings.get? other = some binding := by
        rw [hget, if_neg, hbinding]
        rintro ⟨hscope, rfl⟩
        exact hother ⟨rfl, d, d', h, hd', hscope.symm⟩
      have hnew := (hd'.of_contains_eq (hcontains · other)).run_lookup hs' hsame
      have hold := hd'.run_lookup hs hbinding
      rw [Exec.answer, Exec.answer, hnew, hold]
      cases binding.read other <;> rfl
    · have habsent' : ∀ id ∈ c'.scopes, (s'.scopeAt id).bindings.contains other = false :=
        fun id hid => (hcontains id other).trans (habsent id hid)
      rw [Exec.answer, Exec.answer, Exec.run_lookup_of_absent hs' habsent',
        Exec.run_lookup_of_absent hs habsent]

/-- An assignment is made at the home of the name, or it fails and changes nothing. -/
lemma Exec.assignVariable_cases (hs : s.services.naming = .exact) (c : Context) (name : String)
    (v : Value) :
    (∃ d kind w, c.Home s name d ∧
      (s.scopeAt d.scope).bindings.get? name = some ⟨kind, some w⟩ ∧ kind.isMutable = true ∧
      (Exec.assignVariable c name v).run s = .ok () (s.assigned d.scope name kind v)) ∨
      ∃ cause, (Exec.assignVariable c name v).run s = .error (.fault ⟨cause, none⟩) s := by
  rcases c.home_or_absent s name with ⟨d, hd⟩ | habsent
  · obtain ⟨⟨kind, value⟩, hget⟩ := Option.isSome_iff_exists.mp hd.contains
    have hrun := hd.run_assignVariable (v := v) hs hget
    cases haccept : Binding.accept name ⟨kind, value⟩ with
    | error cause => exact .inr ⟨cause, by rw [hrun, haccept]⟩
    | ok _ =>
      obtain ⟨hvalue, hmutable⟩ := Binding.accept_eq_ok_iff.mp haccept
      obtain ⟨w, rfl⟩ := Option.isSome_iff_exists.mp hvalue
      exact .inl ⟨d, kind, w, hd, hget, hmutable, by rw [hrun, haccept]⟩
  · exact .inr ⟨_, Exec.run_assignVariable_of_absent hs habsent⟩

/-- **Looking up a name agrees with assigning to it.**  Where names are kept as they are written, both end
at the home of the name.  If it is only reserved there, both fail, and so they do if it has no home.
Otherwise looking it up gives its value, and an assignment is made if the name stands for a variable or a
parameter.  The new value is then seen from all contexts in which the name has the same home, and from no
context anything else is seen to change.  An assignment that fails leaves everything as it is. -/
theorem lookup_agrees_with_assignment {s : State} (hs : s.services.naming = .exact) (c : Context)
    (name : String) (v : Value) :
    (∀ d kind, c.Home s name d → (s.scopeAt d.scope).bindings.get? name = some ⟨kind, none⟩ →
      (Exec.lookup c name).run s = .error (.fault ⟨.unassigned name, none⟩) s ∧
      (Exec.assignVariable c name v).run s = .error (.fault ⟨.unassigned name, none⟩) s) ∧
    (∀ d kind w, c.Home s name d → (s.scopeAt d.scope).bindings.get? name = some ⟨kind, some w⟩ →
      (Exec.lookup c name).run s = .ok w s ∧
      (Exec.assignVariable c name v).run s =
        if kind.isMutable then
          .ok () (s.withScope d.scope ((s.scopeAt d.scope).declare name kind v))
        else .error (.fault ⟨.constantBinding name, none⟩) s) ∧
    ((∀ d, ¬c.Home s name d) →
      (Exec.lookup c name).run s = .error (.fault ⟨.undefined name, none⟩) s ∧
      (Exec.assignVariable c name v).run s = .error (.fault ⟨.undefined name, none⟩) s) ∧
    ((∃ s', (Exec.assignVariable c name v).run s = .ok () s') ↔
      ∃ d kind w, c.Home s name d ∧
        (s.scopeAt d.scope).bindings.get? name = some ⟨kind, some w⟩ ∧ kind.isMutable = true) ∧
    (∀ s', (Exec.assignVariable c name v).run s = .ok () s' → c.ShareHome s name c ∧
      ∀ c' other, (other = name ∧ c.ShareHome s name c' → (Exec.lookup c' other).run s' = .ok v s') ∧
        (¬(other = name ∧ c.ShareHome s name c') →
          (Exec.lookup c' other).answer s' = (Exec.lookup c' other).answer s)) ∧
    ∀ e s', (Exec.assignVariable c name v).run s = .error e s' → s' = s := by
  have hcases := Exec.assignVariable_cases hs c name v
  refine ⟨fun d kind hd hget => ⟨hd.run_lookup hs hget, hd.run_assignVariable hs hget⟩,
    fun d kind w hd hget => ⟨hd.run_lookup hs hget, ?_⟩, fun hnone => ?_, ⟨?_, ?_⟩, fun s' hrun => ?_,
    fun e s' hrun => ?_⟩
  · refine (hd.run_assignVariable hs hget).trans ?_
    cases kind <;> rfl
  · have habsent := (c.home_or_absent s name).resolve_left fun ⟨d, hd⟩ => hnone d hd
    exact ⟨Exec.run_lookup_of_absent hs habsent, Exec.run_assignVariable_of_absent hs habsent⟩
  · rintro ⟨s', hrun⟩
    rcases hcases with ⟨d, kind, w, hd, hget, hmutable, -⟩ | ⟨cause, hfail⟩
    · exact ⟨d, kind, w, hd, hget, hmutable⟩
    · cases hrun.symm.trans hfail
  · rintro ⟨d, kind, w, hd, hget, hmutable⟩
    have hrun := hd.run_assignVariable (v := v) hs hget
    rw [Binding.accept_eq_ok_iff.mpr ⟨rfl, hmutable⟩] at hrun
    exact ⟨_, hrun⟩
  · rcases hcases with ⟨d, kind, w, hd, hget, -, hok⟩ | ⟨cause, hfail⟩
    · cases hrun.symm.trans hok
      exact ⟨⟨d, d, hd, hd, rfl⟩, fun c' other => Exec.lookup_assigned hs hd kind v c' other⟩
    · cases hrun.symm.trans hfail
  · rcases hcases with ⟨d, kind, w, hd, hget, -, hok⟩ | ⟨cause, hfail⟩
    · cases hrun.symm.trans hok
    · cases hrun.symm.trans hfail
      rfl

/-- Three scopes: the root with `x` and `y`, a block that has only reserved `y`, and a function in the
block with a parameter `x`. -/
def nestedState : State :=
  { plainState with
    scopes := #[
      { bindings := .ofList [("x", ⟨.variable, some .null⟩), ("y", ⟨.variable, some .null⟩)] },
      { bindings := .ofList [("y", ⟨.variable, none⟩)] },
      { bindings := .ofList [("x", ⟨.parameter, some (.boolean true)⟩)] }] }

/-- The block. -/
def nestedBlock : Context := .block ⟨1⟩ .plain Interpreter.root

/-- The call of the function. -/
def nestedCall : Context := .function ⟨2⟩ nestedBlock

lemma home_nestedBlock : nestedBlock.Home nestedState "x" Interpreter.root :=
  .around (by decide +kernel) rfl (.here (by decide +kernel))

lemma home_nestedCall : nestedCall.Home nestedState "x" nestedCall := .here (by decide +kernel)

/-- An assignment to `x` in the block is seen at the root and not in the call.  In the block `y` can
neither be read nor be assigned to, although the root has a value for it. -/
theorem lookup_agrees_with_assignment_nested :
    nestedState.services.naming = .exact ∧
      (∃ s', (Exec.assignVariable nestedBlock "x" (.boolean false)).run nestedState = .ok () s' ∧
        (Exec.lookup Interpreter.root "x").run s' = .ok (.boolean false) s' ∧
        (Exec.lookup nestedCall "x").answer s' = .ok (.boolean true)) ∧
      (Exec.lookup nestedBlock "y").run nestedState =
        .error (.fault ⟨.unassigned "y", none⟩) nestedState ∧
      (Exec.assignVariable nestedBlock "y" .null).run nestedState =
        .error (.fault ⟨.unassigned "y", none⟩) nestedState := by
  have hx := lookup_agrees_with_assignment (s := nestedState) rfl nestedBlock "x" (.boolean false)
  have hy := lookup_agrees_with_assignment (s := nestedState) rfl nestedBlock "y" .null
  refine ⟨rfl, ?_, hy.1 nestedBlock .variable (.here (by decide +kernel)) rfl⟩
  obtain ⟨-, -, -, hiff, hassigned, -⟩ := hx
  obtain ⟨s', hrun⟩ := hiff.mpr ⟨Interpreter.root, .variable, .null, home_nestedBlock, rfl, rfl⟩
  have hseen := (hassigned s' hrun).2
  refine ⟨s', hrun, (hseen Interpreter.root "x").1 ⟨rfl, _, _, home_nestedBlock, ?_, rfl⟩, ?_⟩
  · exact .here (by decide +kernel)
  · refine ((hseen nestedCall "x").2 ?_).trans rfl
    rintro ⟨-, d, d', hd, hd', hscope⟩
    cases hd.eq home_nestedBlock
    cases hd'.eq home_nestedCall
    cases hscope

end ScriptLang
