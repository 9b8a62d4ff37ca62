/-
Functions and classes at the root are constants, up to branches.

A name that stands for a function or a class cannot be assigned to, and a list of statements that declares
a name again is refused before its first statement runs.  But only the statements of the list are looked at,
not those in the branches of an `if`, which run in the same scope.  What such a branch declares is declared
without a question, and a function that was there is gone.

So a constant of the root is kept by every script none of whose branches declares its name
(`constants_stay_unless_in_branch`).  The condition cannot be left out (`branch_replaces_function`).
-/
import ScriptLang.Proofs.Eval.Leaving
import ScriptLang.Proofs.Eval.Sessions

namespace ScriptLang

/-! ## Statements that run in one scope -/

/-- What stands under a name at the root. -/
def State.atRoot (s : State) (name : String) : Option Binding :=
  (s.scopeAt Interpreter.root.scope).bindings.get? name

namespace Stmt

variable {st st' st'' : Stmt} {naming : Naming} {name : String}

/-- The statement `st'` is a branch of `st`. -/
def HasBranch (st st' : Stmt) : Prop := st' ∈ st.form.branches

/-- A statement declares something that is kept under a name. -/
def Declares (naming : Naming) (name : String) (st : Stmt) : Prop :=
  ∃ d ∈ st.form.declared, naming.keep d.1 = name

/-- Neither a statement nor anything in its branches declares a name. -/
def Spares (naming : Naming) (name : String) (st : Stmt) : Prop :=
  ∀ st', Relation.ReflTransGen HasBranch st st' → ¬st'.Declares naming name

lemma Spares.branch (h : st.Spares naming name) (hbranch : st' ∈ st.form.branches) :
    st'.Spares naming name :=
  fun st'' h' => h st'' (.head hbranch h')

end Stmt

/-! ## The regime -/

/-- At the root a task declares nothing under a name. -/
def Task.Spares (naming : Naming) (name : String) : Task → Prop
  | .sequence c body => c.scope = Interpreter.root.scope → ∀ st ∈ body, st.Spares naming name
  | .execute c st => c.scope = Interpreter.root.scope → st.Spares naming name
  | _ => True

/-- There is a root, and names are kept in a certain way. -/
structure State.Rooted (naming : Naming) (s : State) : Prop where
  root : 0 < s.scopes.size
  naming : s.services.naming = naming

/-- A constant of the root stays. -/
structure State.Constant (naming : Naming) (name : String) (s s' : State) : Prop where
  grows : s.Grows s'
  rooted : s.Rooted naming
  constant : ∀ binding, s.atRoot name = some binding → binding.kind.isMutable = false →
    s'.atRoot name = some binding

namespace State.Constant

variable {naming : Naming} {name : String} {s s' s'' : State}

lemma of_root (hgrows : s.Grows s') (hs : s.Rooted naming)
    (h : s'.scopeAt Interpreter.root.scope = s.scopeAt Interpreter.root.scope) :
    Constant naming name s s' :=
  ⟨hgrows, hs, fun binding hb _ => by rwa [atRoot, h]⟩

lemma refl (hs : s.Rooted naming) : Constant naming name s s := of_root (.refl s) hs rfl

lemma trans (h : Constant naming name s s') (h' : Constant naming name s' s'') :
    Constant naming name s s'' :=
  ⟨h.grows.trans h'.grows, h.rooted,
    fun binding hb hconst => h'.constant binding (h.constant binding hb hconst) hconst⟩

lemma good (h : Constant naming name s s') : s'.Rooted naming :=
  ⟨h.rooted.root.trans_le h.grows.scopes, by rw [h.grows.services, h.rooted.naming]⟩

/-- A scope may get any content that holds on to what is constant. -/
lemma withScope (hs : s.Rooted naming) {id : ScopeId} {scope : Scope}
    (h : id = Interpreter.root.scope → ∀ binding, s.atRoot name = some binding →
      binding.kind.isMutable = false → scope.bindings.get? name = some binding) :
    Constant naming name s (s.withScope id scope) := by
  refine ⟨.withScope s id scope, hs, fun binding hb hconst => ?_⟩
  rcases s.scopeAt_withScope id Interpreter.root.scope scope with ⟨hscope, hid⟩ | hsame
  · rw [atRoot, hscope]
    exact h hid.symm binding hb hconst
  · rwa [atRoot, hsame]

/-- Only a name that the scope does not have is reserved. -/
lemma reserved (hs : s.Rooted naming) {id : ScopeId} {scope : Scope} {other : String}
    {kind : BindingKind} (h : (s.scopeAt id).hoist other kind = .ok scope) :
    Constant naming name s (s.withScope id scope) := by
  refine withScope hs ?_
  rintro rfl binding hb -
  unfold Scope.hoist at h
  split at h
  next => cases h
  next hnew =>
    cases h
    have hne : name ≠ other := by
      rintro rfl
      have heq : (s.scopeAt Interpreter.root.scope).bindings.get? name = some binding := hb
      simp [Table.contains, heq] at hnew
    rw [Table.get?_insert_of_ne _ _ hne]
    exact hb

lemma labelled (hs : s.Rooted naming) {id : ScopeId} {scope : Scope} {label : String}
    (h : (s.scopeAt id).declareLabel label = .ok scope) :
    Constant naming name s (s.withScope id scope) := by
  refine withScope hs ?_
  rintro rfl binding hb -
  unfold Scope.declareLabel at h
  split at h
  next => cases h
  next =>
    cases h
    exact hb

lemma declared (hs : s.Rooted naming) {id : ScopeId} {other : String} {kind : BindingKind} {v : Value}
    (h : id = Interpreter.root.scope → other ≠ name) :
    Constant naming name s (s.withScope id ((s.scopeAt id).declare other kind v)) := by
  refine withScope hs ?_
  rintro rfl binding hb -
  rw [Scope.declare, Table.get?_insert_of_ne _ _ (h rfl).symm]
  exact hb

/-- Only variables and parameters are assigned to. -/
lemma assigned (hs : s.Rooted naming) {id : ScopeId} {scope : Scope} {other : String} {v : Value}
    (h : (s.scopeAt id).assign other v = .ok (some scope)) :
    Constant naming name s (s.withScope id scope) := by
  obtain ⟨kind, old, hget, hmutable, rfl⟩ := Scope.of_assign h
  refine withScope hs ?_
  rintro rfl binding hb hconst
  have hne : name ≠ other := by
    rintro rfl
    cases hget.symm.trans hb
    rw [hmutable] at hconst
    cases hconst
  rw [Scope.declare, Table.get?_insert_of_ne _ _ hne]
  exact hb

lemma opened (hs : s.Rooted naming) : Constant naming name s s.opened := by
  refine of_root (.opened s) hs ?_
  have hne : Interpreter.root.scope.index ≠ s.scopes.size := Nat.ne_of_lt hs.root
  simp [State.scopeAt, State.opened, Array.getElem?_push, hne]

end State.Constant

namespace Regime

/-- At the root nothing is declared under a name. -/
def sparing (naming : Naming) (name : String) : Regime where
  Good := State.Rooted naming
  Kept := State.Constant naming name
  Near := State.Constant naming name
  Knows := fun _ _ => True
  Does := fun _ _ t => t.Spares naming name
  Stalls := fun _ => True
  refl := .refl
  trans := .trans
  good := State.Constant.good
  near := id
  near_trans := .trans
  grows := State.Constant.grows
  opened := .opened
  entered := fun h => ⟨h.root, h.naming⟩
  left := fun h => ⟨.left h.grows, ⟨h.rooted.root, h.rooted.naming⟩, h.constant⟩
  near_left := fun h => ⟨.left h.grows, ⟨h.rooted.root, h.rooted.naming⟩, h.constant⟩
  knows := fun _ _ => trivial
  registered := fun _ _ => trivial
  stored := fun _ _ _ _ => trivial
  given := fun _ _ _ _ _ => trivial
  brought := fun _ _ _ => trivial
  operated := fun _ _ => trivial
  handled := fun _ _ h => h
  change := by
    intro n t s₀ s s' hs hchange
    have hgrows : s.Grows s' := hchange.grows fun _ _ h => h.grows
    have hrooted : s.Rooted naming := hs.kept.good
    have hdoes : t.Spares naming name := hs.does
    cases hchange with
    | reserved _ _ hscope => exact .reserved hrooted hscope
    | labelled _ _ hscope => exact .labelled hrooted hscope
    | declared hname =>
      refine .declared hrooted fun hroot hkept => hdoes hroot _ .refl ⟨_, hname, ?_⟩
      rwa [hrooted.naming] at hkept
    | parameter _ hid =>
      -- The scope of a call is new, and the root was there before.
      refine .declared hrooted fun hroot => ?_
      rw [hid] at hroot
      exact absurd (ScopeId.mk.inj hroot) (Nat.ne_of_gt hs.start.root)
    | assigned _ _ hassign => exact .assigned hrooted hassign
    | array | object | closure | taken | element | property | fieldSetUp | fieldWritten | fieldOfHost
    | registered | staticSetUp | staticWritten | printed | cancelled | turned =>
      exact .of_root hgrows hrooted rfl
  lead := by
    intro n t s₀ s t' s' hs hlead
    have hrooted : s.Rooted naming := hs.kept.good
    have hdoes : t.Spares naming name := hs.does
    -- A scope of its own is not the root.
    have hnew : ∀ {scope : ScopeId}, s₀.scopes.size ≤ scope.index → scope ≠ Interpreter.root.scope := by
      rintro scope hle rfl
      exact absurd hle (Nat.not_le.mpr hs.start.root)
    cases hlead with
    | branch hst => exact ⟨hrooted, fun hroot => (hdoes hroot).branch hst⟩
    | block _ hscope | body hscope | constructor _ _ _ hscope =>
      exact ⟨hrooted, fun hroot => absurd hroot (hnew hscope)⟩
    | turn _ _ hscope =>
      refine ⟨hrooted, ?_⟩
      unfold Stmt.turn
      split <;> exact fun hroot => absurd hroot (hnew hscope)
    | listed _ hst => exact ⟨hrooted, fun hroot => hdoes hroot _ hst⟩
    | called _ hcalls =>
      cases hcalls <;> exact ⟨hrooted, trivial⟩
    | constructed => exact ⟨⟨hrooted.root, hrooted.naming⟩, trivial⟩
    | evaluate | initializer | assign | parent | hostConstructor | callBack | memberForHost =>
      exact ⟨hrooted, trivial⟩
  constructed := fun hs h _ => .trans (.of_root (.withInstance _ _) hs rfl) h
  abandoned := fun hs h => .trans (.of_root (.withInstance _ _) hs rfl) h
  exhausted := fun _ _ => trivial
  endless := fun _ _ => trivial
  stalls_left := id
  halting := .inl fun _ _ => trivial

end Regime

/-! ## Lists that declare a name again -/

/-- The failures of entering what a statement declares. -/
inductive Stmt.Clash (naming : Naming) (st : Stmt) : Cause → Prop
  | name {d} : d ∈ st.form.declared → Clash naming st (.alreadyDeclared (naming.keep d.1))
  | label {label} : st.form = .label label → Clash naming st (.duplicateLabel label)

/-- At the root there is something under a name. -/
structure State.Holds (naming : Naming) (name : String) (binding : Binding) (s : State) : Prop where
  rooted : s.Rooted naming
  eq : s.atRoot name = some binding

namespace State.Holds

variable {naming : Naming} {name : String} {binding : Binding} {s s' : State}

/-- Constants are kept as long as the regime is. -/
lemma kept (h : s.Holds naming name binding) (hconst : binding.kind.isMutable = false)
    (hkept : State.Constant naming name s s') : s'.Holds naming name binding :=
  ⟨hkept.good, hkept.constant binding h.eq hconst⟩

lemma contains (h : s.Holds naming name binding) :
    (s.scopeAt Interpreter.root.scope).bindings.contains name = true := by
  have heq : (s.scopeAt Interpreter.root.scope).bindings.get? name = some binding := h.eq
  simp [Table.contains, heq]

lemma entered (h : s.Holds naming name binding) : s.entered.Holds naming name binding :=
  ⟨⟨h.rooted.root, h.rooted.naming⟩, h.eq⟩

lemma withInstance (h : s.Holds naming name binding) (id : ClassId) :
    (s.withInstance id).Holds naming name binding :=
  ⟨⟨h.rooted.root, h.rooted.naming⟩, h.eq⟩

end State.Holds

/-- A computation that enters names and labels at the root leaves alone what there is under a name.  It fails
as `P` says, and it does fail if it enters the name again. -/
def Enters (naming : Naming) (name : String) (binding : Binding) (again : Prop) (P : Fault → Prop)
    (m : Exec Unit) : Prop :=
  ∀ s, s.Holds naming name binding →
    (∃ s', m.run s = .ok () s' ∧ s'.Holds naming name binding ∧ ¬again) ∨
      ∃ f s', m.run s = .error (.fault f) s' ∧ s'.Holds naming name binding ∧ P f

namespace Enters

variable {naming : Naming} {name : String} {binding : Binding} {again other : Prop}
  {P P' : Fault → Prop} {m m' : Exec Unit}

lemma weaken (h : Enters naming name binding again P m) (hother : other → again)
    (hP : ∀ f, P f → P' f) : Enters naming name binding other P' m := by
  intro s hs
  rcases h s hs with ⟨s', hrun, hs', hnot⟩ | ⟨f, s', hrun, hs', hf⟩
  · exact .inl ⟨s', hrun, hs', fun h => hnot (hother h)⟩
  · exact .inr ⟨f, s', hrun, hs', hP f hf⟩

lemma located (h : Enters naming name binding again P m) (p : Position) :
    Enters naming name binding again (fun f => ∃ f', P f' ∧ f = f'.locate p) (Exec.located p m) := by
  intro s hs
  rcases h s hs with ⟨s', hrun, h⟩ | ⟨f, s', hrun, hs', hf⟩
  · exact .inl ⟨s', Exec.run_located_of_ok hrun, h⟩
  · exact .inr ⟨f.locate p, s', Exec.run_located_of_error hrun, hs', f, hf, rfl⟩

lemma pure : Enters naming name binding False P (Pure.pure ()) :=
  fun s hs => .inl ⟨s, rfl, hs, id⟩

/-- One after the other. -/
lemma bind (h : Enters naming name binding again P m) (h' : Enters naming name binding other P m') :
    Enters naming name binding (again ∨ other) P (m >>= fun _ => m') := by
  intro s hs
  rcases h s hs with ⟨s₁, hrun₁, hs₁, hnot₁⟩ | ⟨f, s₁, hrun₁, hs₁, hf⟩
  · rcases h' s₁ hs₁ with ⟨s₂, hrun₂, hs₂, hnot₂⟩ | ⟨f, s₂, hrun₂, hs₂, hf⟩
    · exact .inl ⟨s₂, (run_bind_ok hrun₁).trans hrun₂, hs₂, fun h => h.elim hnot₁ hnot₂⟩
    · exact .inr ⟨f, s₂, (run_bind_ok hrun₁).trans hrun₂, hs₂, hf⟩
  · exact .inr ⟨f, s₁, run_bind_error hrun₁, hs₁, hf⟩

lemma forM {α : Type} {l : List α} {g : α → Exec Unit} {again : α → Prop}
    (h : ∀ a ∈ l, Enters naming name binding (again a) P (g a)) :
    Enters naming name binding (∃ a ∈ l, again a) P (l.forM g) := by
  induction l with
  | nil => exact pure.weaken (by simp) fun _ => id
  | cons a l ih =>
    have hrest := ih fun a' ha' => h a' (List.mem_cons_of_mem a ha')
    exact ((h a List.mem_cons_self).bind hrest).weaken (by simp) fun _ => id

variable (hconst : binding.kind.isMutable = false)

include hconst

lemma hoistName (other : String) (kind : BindingKind) :
    Enters naming name binding (naming.keep other = name)
      (· = ⟨.alreadyDeclared (naming.keep other), none⟩) (Exec.hoist Interpreter.root other kind) := by
  intro s hs
  rw [Exec.run_hoist, hs.rooted.naming]
  cases hscope : (s.scopeAt Interpreter.root.scope).hoist (naming.keep other) kind with
  | error cause =>
    obtain ⟨-, rfl⟩ := (Scope.hoist_eq_error_iff _ _ _ _).mp hscope
    exact .inr ⟨_, s, rfl, hs, rfl⟩
  | ok scope =>
    refine .inl ⟨_, rfl, hs.kept hconst (.reserved hs.rooted hscope), ?_⟩
    rintro rfl
    simp [Scope.hoist, hs.contains] at hscope

lemma declareLabel (label : String) :
    Enters naming name binding False (· = ⟨.duplicateLabel label, none⟩)
      (Exec.declareLabel Interpreter.root label) := by
  intro s hs
  rw [Exec.run_declareLabel]
  cases hscope : (s.scopeAt Interpreter.root.scope).declareLabel label with
  | error cause =>
    have hcause : cause = .duplicateLabel label := by
      unfold Scope.declareLabel at hscope
      split at hscope
      · exact (Except.error.inj hscope).symm
      · cases hscope
    exact .inr ⟨_, s, rfl, hs, by rw [hcause]⟩
  | ok scope =>
    exact .inl ⟨_, rfl, hs.kept hconst (.labelled hs.rooted hscope), id⟩

/-- Entering what a statement declares fails if the name is declared again. -/
lemma hoist (st : Stmt) :
    Enters naming name binding (st.Declares naming name)
      (fun f => ∃ cause, st.Clash naming cause ∧ f = ⟨cause, none⟩) (st.hoist Interpreter.root) := by
  have hname : ∀ d ∈ st.form.declared, Enters naming name binding (naming.keep d.1 = name)
      (fun f => ∃ cause, st.Clash naming cause ∧ f = ⟨cause, none⟩)
      (Exec.hoist Interpreter.root d.1 d.2) := by
    intro d hd
    exact (hoistName hconst d.1 d.2).weaken id fun f hf => ⟨_, .name hd, hf⟩
  unfold Stmt.hoist Stmt.Declares
  cases hform : st.form with
  | «variables» declarators =>
    rw [hform] at hname
    refine (forM fun d hd => hname (d.1, .variable) (List.mem_map_of_mem hd)).weaken ?_ fun _ => id
    rintro ⟨d, hd, heq⟩
    obtain ⟨d', hd', rfl⟩ := List.mem_map.mp hd
    exact ⟨d', hd', heq⟩
  | function decl =>
    rw [hform] at hname
    dsimp only
    cases hdecl : decl.name with
    | none => exact pure.weaken (by simp [StmtForm.declared, hdecl]) fun _ => id
    | some x =>
      have hmem : (x, BindingKind.function) ∈ (StmtForm.function decl).declared := by
        simp [StmtForm.declared, hdecl]
      exact (hname _ hmem).weaken (by simp [StmtForm.declared, hdecl]) fun _ => id
  | classDecl decl =>
    rw [hform] at hname
    exact (hname _ List.mem_cons_self).weaken (by simp [StmtForm.declared]) fun _ => id
  | label label =>
    refine (declareLabel hconst label).weaken (by simp [StmtForm.declared]) fun f hf => ?_
    exact ⟨_, .label hform, hf⟩
  | _ => exact pure.weaken (by simp [StmtForm.declared]) fun _ => id

/-- A list that declares the name again is refused at one of its statements. -/
lemma hoistAll (body : List Stmt) :
    Enters naming name binding (∃ st ∈ body, st.Declares naming name)
      (fun f => ∃ st ∈ body, ∃ cause, st.Clash naming cause ∧ f = ⟨cause, some st.place⟩)
      (ScriptLang.hoistAll Interpreter.root body) := by
  refine forM fun st hst => ((hoist hconst st).located st.place).weaken id ?_
  rintro f ⟨-, ⟨cause, hclash, rfl⟩, rfl⟩
  refine ⟨st, hst, cause, hclash, Fault.locate_bare ?_ _⟩
  rintro rfl
  cases hclash

end Enters

/-! ## Assignments -/

/-- In a context a name stands for what there is under it at the root. -/
def State.FindsAtRoot (s : State) (c : Context) (name : String) : Prop :=
  ∃ inner outer, c.scopes = inner ++ Interpreter.root.scope :: outer ∧
    ∀ id ∈ inner, (s.scopeAt id).bindings.get? name = none

/-- The failure of an assignment to a constant. -/
def Binding.refusal (binding : Binding) (name : String) : Cause :=
  if binding.value.isSome then .constantBinding name else .unassigned name

section Assignments

variable {s : State} {name : String} {binding : Binding}

lemma Scope.assign_constant {scope : Scope} (h : scope.bindings.get? name = some binding)
    (hconst : binding.kind.isMutable = false) (v : Value) :
    scope.assign name v = .error (binding.refusal name) := by
  obtain ⟨kind, value⟩ := binding
  cases value with
  | none => simp [assign, h, Binding.refusal]
  | some old => simp [assign, h, hconst, Binding.refusal]

/-- The scopes that do not have a name are passed over on the way to the root. -/
lemma Exec.run_assignIn_constant (h : s.atRoot name = some binding)
    (hconst : binding.kind.isMutable = false) (x : String) (v : Value) {inner outer : List ScopeId}
    (hinner : ∀ id ∈ inner, (s.scopeAt id).bindings.get? name = none) :
    (assignIn x name v (inner ++ Interpreter.root.scope :: outer)).run s =
      .error (.fault ⟨binding.refusal name, none⟩) s := by
  have hscope : ∀ id, (scopeOf id).run s = .ok (s.scopeAt id) s := fun _ => rfl
  induction inner with
  | nil =>
    rw [List.nil_append, assignIn, run_bind_ok (hscope _), Scope.assign_constant h hconst v]
    rfl
  | cons id inner ih =>
    rw [List.forall_mem_cons] at hinner
    have hassign : (s.scopeAt id).assign name v = .ok none := by simp [Scope.assign, hinner.1]
    rw [List.cons_append, assignIn, run_bind_ok (hscope _), hassign]
    exact ih hinner.2

lemma Evaluator.run_assign_constant (h : s.atRoot name = some binding)
    (hconst : binding.kind.isMutable = false) {c : Context} {e : Expr} {x : String}
    (hform : e.form = .variable x) (hname : s.services.naming.keep x = name)
    (hfinds : s.FindsAtRoot c name) (k : Nat) (v : Value) :
    ((within (k + 1)).perform (.assign c e v)).run s =
      .error (.fault ⟨binding.refusal name, some e.place⟩) s := by
  obtain ⟨inner, outer, hscopes, hinner⟩ := hfinds
  have hvariable : (Exec.assignVariable c x v).run s = .error (.fault ⟨binding.refusal name, none⟩) s := by
    have hrun : (Exec.assignVariable c x v).run s =
        (Exec.assignIn x (s.services.naming.keep x) v c.scopes).run s := rfl
    rw [hrun, hname, hscopes, Exec.run_assignIn_constant h hconst x v hinner]
  have hstep : ((within (k + 1)).perform (.assign c e v)).run s =
      (Exec.located e.place ((within k).assignForm c v e.form)).run s := rfl
  have hlocate : (⟨binding.refusal name, none⟩ : Fault).locate e.place =
      ⟨binding.refusal name, some e.place⟩ := by
    refine Fault.locate_bare ?_ _
    unfold Binding.refusal
    split <;> nofun
  rw [hstep, hform, ← hlocate]
  exact Exec.run_located_of_error hvariable

end Assignments

/-! ## Scripts -/

section Scripts

variable {n k : Nat} {body : List Stmt} {s s' s₁ : State} {naming : Naming} {name : String}
  {binding : Binding} {trail : List Task} {t : Task}

lemma State.rooted_of_atRoot (h : s.atRoot name = some binding) : s.Rooted s.services.naming := by
  refine ⟨Nat.pos_of_ne_zero fun hzero => ?_, rfl⟩
  have hempty : s.scopeAt Interpreter.root.scope = {} := by
    simp [State.scopeAt, Array.getElem?_eq_none (Nat.le_of_eq hzero |>.trans (Nat.zero_le _))]
  rw [State.atRoot, hempty] at h
  cases h

/-- A list that declares a constant again is refused as a whole, by any evaluator. -/
lemma State.Holds.refused (h : s.Holds naming name binding) (hconst : binding.kind.isMutable = false)
    (hagain : ∃ st ∈ body, st.Declares naming name) :
    ∃ st ∈ body, ∃ cause s', st.Clash naming cause ∧ s'.Holds naming name binding ∧
      ∀ ev : Evaluator, (ev.runSequence Interpreter.root body).run s =
        .error (.fault ⟨cause, some st.place⟩) s' := by
  rcases Enters.hoistAll hconst body s h with ⟨s', -, -, hnot⟩ |
    ⟨f, s', hrun, hs', st, hst, cause, hclash, rfl⟩
  · exact absurd hagain hnot
  · exact ⟨st, hst, cause, s', hclash, hs', fun ev => run_bind_error hrun⟩

/-- A script whose list is refused has no part but the list. -/
lemma Part.of_refused {f : Fault} (h : ∀ ev : Evaluator,
      (ev.runSequence Interpreter.root body).run s = .error (.fault f) s₁)
    (hpart : Part n (fun ev => Interpreter.run ev body) s trail k t s') :
    t = .sequence Interpreter.root body ∧ s' = s := by
  induction hpart with
  | asked ha =>
    rcases Evaluator.asks_bind ha with ha | ⟨flow, s₂, -, ha⟩
    · exact Evaluator.asks_perform ha
    · exact absurd ha (Evaluator.not_asks_const _)
  | inner _ ha ih =>
    obtain ⟨rfl, rfl⟩ := ih
    obtain ⟨other, -, hne⟩ := ha
    exact absurd ((h other).trans (h _).symm) hne

/-- A script that spares a name keeps what is constant under it, at each point. -/
lemma Served.holds_of_part (h : Served (.sparing naming name) n (fun ev => Interpreter.run ev body) s)
    (hs : s.Holds naming name binding) (hconst : binding.kind.isMutable = false)
    (hpart : Part n (fun ev => Interpreter.run ev body) s trail k t s') :
    s'.Holds naming name binding := by
  refine hpart.carries (.sparing naming name) h.allowed (fun t s' ha => ?_)
    (fun _ _ hkept hs => hs.kept hconst hkept) (fun _ hs => hs.entered) (fun _ id hs => hs.withInstance id)
  obtain ⟨s₁, hkept, henters⟩ := h.enters t s' ha
  rcases henters with rfl | ⟨c, id, args, -, rfl⟩
  · exact hs.kept hconst hkept
  · exact (hs.kept hconst hkept).withInstance id

/-- What is constant at the root is there at the end of a script and at each point of it, unless a branch
declares it. -/
lemma State.Holds.script (h : s.Holds naming name binding) (hconst : binding.kind.isMutable = false)
    (hbranches : ∀ st ∈ body, ∀ st', Relation.TransGen Stmt.HasBranch st st' →
      ¬st'.Declares naming name) (n : Nat) :
    ((Interpreter.run (Evaluator.within n) body).after s).Holds naming name binding ∧
      ∀ trail k t s', Part n (fun ev => Interpreter.run ev body) s trail k t s' →
        s'.Holds naming name binding := by
  -- Either the list is refused as a whole, or it spares the name and the regime serves it.
  by_cases hagain : ∃ st ∈ body, st.Declares naming name
  · obtain ⟨st, -, cause, s₁, -, hs₁, hrun⟩ := h.refused hconst hagain
    refine ⟨?_, fun trail k t s' hpart => ?_⟩
    · cases n with
      | zero => exact h
      | succ n =>
        have hscript : (Interpreter.run (Evaluator.within (n + 1)) body).run s =
            .error (.fault ⟨cause, some st.place⟩) s₁ := run_bind_error (hrun (Evaluator.within n))
        rw [Exec.after_of_error hscript]
        exact hs₁
    · obtain ⟨-, rfl⟩ := hpart.of_refused hrun
      exact h
  · have hspares : ∀ st ∈ body, st.Spares naming name := by
      intro st hst st' hreach
      rcases Relation.reflTransGen_iff_eq_or_transGen.mp hreach with rfl | hbelow
      · exact fun hdeclares => hagain ⟨st', hst, hdeclares⟩
      · exact hbranches st hst st' hbelow
    have hserved : Served (.sparing naming name) n (fun ev => Interpreter.run ev body) s :=
      .run h.rooted fun _ => hspares
    refine ⟨h.kept hconst ((Regime.sparing naming name).near_after hserved.left), ?_⟩
    exact fun trail k t s' hpart => hserved.holds_of_part h hconst hpart

end Scripts

/-- **Functions and classes stay, unless a branch declares their names.**  Take a function or a class that
stands under a name at the root, and a script none of whose branches declares this name.  Then what stands
under the name is the same at each point of the run and at its end, however it ends.  If the script declares
the name again, it fails before its first statement runs, at a statement of the list that cannot be entered.
An assignment to the name fails, and the script with it, unless a function of the host on the way handles
this. -/
theorem constants_stay_unless_in_branch (n : Nat) {body : List Stmt} {s : State} {name : String}
    {binding : Binding} (hbinding : s.atRoot name = some binding)
    (hconst : binding.kind.isMutable = false)
    (hbranches : ∀ st ∈ body, ∀ st', Relation.TransGen Stmt.HasBranch st st' →
      ¬st'.Declares s.services.naming name) :
    let script := fun ev => Interpreter.run ev body
    ((script (Evaluator.within n)).after s).atRoot name = some binding ∧
    (∀ trail k t s', Part n script s trail k t s' → s'.atRoot name = some binding) ∧
    (0 < n → (∃ st ∈ body, st.Declares s.services.naming name) →
      ∃ st ∈ body, ∃ cause s', st.Clash s.services.naming cause ∧
        (script (Evaluator.within n)).run s = .error (.fault ⟨cause, some st.place⟩) s') ∧
    ∀ trail k c e x v s', Part n script s trail (k + 1) (.assign c e v) s' → e.form = .variable x →
      s.services.naming.keep x = name → s'.FindsAtRoot c name →
      ((Evaluator.within (k + 1)).assign c e v).run s' =
        .error (.fault ⟨binding.refusal name, some e.place⟩) s' ∧
      ((∃ s'', (script (Evaluator.within n)).run s =
        .error (.fault ⟨binding.refusal name, some e.place⟩) s'') ∨
        ∃ f call, .host f call ∈ trail ∧ f.Handles (binding.refusal name)) := by
  intro script
  have hs : s.Holds s.services.naming name binding := ⟨State.rooted_of_atRoot hbinding, hbinding⟩
  obtain ⟨hend, hparts⟩ := hs.script hconst hbranches n
  refine ⟨hend.eq, fun trail k t s' hpart => (hparts trail k t s' hpart).eq, fun hn hagain => ?_,
    fun trail k c e x v s' hpart hform hname hfinds => ?_⟩
  · obtain ⟨n, rfl⟩ := Nat.exists_eq_succ_of_ne_zero hn.ne'
    obtain ⟨st, hst, cause, s', hclash, -, hrun⟩ := hs.refused hconst hagain
    exact ⟨st, hst, cause, s', hclash, run_bind_error (hrun (Evaluator.within n))⟩
  · have hs' := hparts _ _ _ _ hpart
    have hfail := Evaluator.run_assign_constant hs'.eq hconst hform
      (by rw [hs'.rooted.naming, hname]) hfinds k v
    have hcomposed := (Entry.run body).composed (W := .whole) rfl
    refine ⟨hfail, (hpart.fails_or_handled hcomposed (Realm.admits_whole s) hfail).imp_left ?_⟩
    rintro ⟨e', s'', hrun, hbecomes⟩
    rw [hbecomes.eq_of_settled (Task.settled_of_isNode rfl hfail)] at hrun
    exact ⟨s'', hrun⟩

/-- An interpreter that knows nothing but `print`. -/
def printState : State :=
  { plainState with
    scopes := #[{ bindings := .ofList [("print", ⟨.function, some (.function ⟨0⟩)⟩)] }] }

/-- The script `print = true; if (true) var other;`. -/
def assigningScript : List Stmt :=
  [⟨⟨1, 1⟩, .expr ⟨⟨1, 7⟩, .binary "=" ⟨⟨1, 1⟩, .variable "print"⟩ ⟨⟨1, 9⟩, .literal (.boolean true)⟩⟩⟩,
    ⟨⟨1, 15⟩, .ifElse ⟨⟨1, 19⟩, .literal (.boolean true)⟩
      ⟨⟨1, 25⟩, .variables [("other", none)]⟩ none⟩]

/-- The script `if (true) var print;`. -/
def branchingScript : List Stmt :=
  [⟨⟨1, 1⟩, .ifElse ⟨⟨1, 5⟩, .literal (.boolean true)⟩
    ⟨⟨1, 11⟩, .variables [("print", none)]⟩ none⟩]

section Asking

variable {k : Nat} {c : Context} {place : Position} {s : State}

lemma Evaluator.asks_expr {e : Expr} :
    (within k).Asks (fun ev => ev.step (.execute c ⟨place, .expr e⟩)) s (.evaluate c e) s := by
  have hkeeps := within_keeps k .whole
  have hadmits := Realm.admits_whole s
  have hform : Composed .whole .full (fun ev => ev.executeForm c (.expr e)) fun _ => True :=
    .executeForm (fun _ => trivial) c _ fun _ _ => trivial
  have hexpr : Composed .whole .full (fun ev => ev.perform (.evaluate c e)) fun _ => True :=
    .ask trivial trivial fun _ => trivial
  exact hform.asks_located hkeeps hadmits (hexpr.asks_bind_left hkeeps hadmits asks_perform_self)

/-- Once the value is there, it is assigned. -/
lemma Evaluator.asks_assign {left right : Expr} {v : Value} {s₁ : State}
    (hmeaning : (meaning (·.binary) "=").run s = .ok .assign s)
    (hvalue : ((within k).evaluate c right).run s = .ok v s₁) :
    (within k).Asks (fun ev => ev.step (.evaluate c ⟨place, .binary "=" left right⟩)) s
      (.assign c left v) s₁ := by
  have hkeeps := within_keeps k .whole
  have hadmits := Realm.admits_whole
  have hform : Composed .whole .full (fun ev => ev.evaluateForm c (.binary "=" left right)) fun _ => True :=
    .evaluateForm (fun _ _ => trivial) c _ fun _ _ => trivial
  have htable : Composed .whole .full (fun _ => meaning (·.binary) "=") fun _ => True := .meaning _ _
  have hright : Composed .whole .full (fun ev => ev.perform (.evaluate c right)) fun _ => True :=
    .ask trivial trivial fun _ => trivial
  have hassign : Composed .whole .full (fun ev => ev.perform (.assign c left v)) fun _ => True :=
    .ask trivial trivial fun _ => trivial
  refine hform.asks_located hkeeps (hadmits s) (htable.asks_bind_after hkeeps (hadmits s) hmeaning ?_)
  refine hright.asks_bind_after hkeeps (hadmits s) hvalue ?_
  exact hassign.asks_bind_left hkeeps (hadmits s₁) asks_perform_self

end Asking

/-- In the first script the only branch declares `other`. -/
lemma assigningScript_branches {naming : Naming} (hnaming : naming.keep "other" ≠ "print") :
    ∀ st ∈ assigningScript, ∀ st', Relation.TransGen Stmt.HasBranch st st' →
      ¬st'.Declares naming "print" := by
  intro st hst st' hbelow
  obtain ⟨st₁, hbranch, hreach⟩ := Relation.TransGen.head'_iff.mp hbelow
  have hother : st₁ = ⟨⟨1, 25⟩, .variables [("other", none)]⟩ := by
    simp only [assigningScript, List.mem_cons, List.not_mem_nil, or_false] at hst
    rcases hst with rfl | rfl
    · cases hbranch
    · exact List.mem_singleton.mp hbranch
  subst hother
  -- There is nothing below the branch.
  rcases Relation.ReflTransGen.cases_head hreach with rfl | ⟨st₂, hnone, -⟩
  · simpa [Stmt.Declares, StmtForm.declared] using hnaming
  · cases hnone

/-- The assignment to `print` is refused, and `print` is what it was. -/
theorem constants_stay_unless_in_branch_assigned :
    printState.atRoot "print" = some ⟨.function, some (.function ⟨0⟩)⟩ ∧
      ∃ s', (Interpreter.run (Evaluator.within 5) assigningScript).run printState =
          .error (.fault ⟨.constantBinding "print", some ⟨1, 1⟩⟩) s' ∧
        s'.atRoot "print" = some ⟨.function, some (.function ⟨0⟩)⟩ := by
  have hprint : printState.atRoot "print" = some ⟨.function, some (.function ⟨0⟩)⟩ := rfl
  have hmeaning : (Evaluator.meaning (·.binary) "=").run printState = .ok .assign printState := rfl
  have hpart := (((Part.asked (Interpreter.asks_run_self 5 assigningScript printState)).inner
    (Evaluator.asks_first rfl rfl)).inner Evaluator.asks_expr).inner (Evaluator.asks_assign hmeaning rfl)
  obtain ⟨hend, -, -, hassign⟩ :=
    constants_stay_unless_in_branch 5 hprint rfl (assigningScript_branches (by decide))
  obtain ⟨-, ⟨s', hrun⟩ | ⟨f, call, hmem, -⟩⟩ := hassign _ _ _ _ _ _ _ hpart rfl rfl ⟨[], [], rfl, nofun⟩
  · refine ⟨hprint, s', hrun, ?_⟩
    rwa [Exec.after_of_error hrun] at hend
  · simp at hmem

/-- A branch that declares `print` replaces the function by a variable. -/
theorem branch_replaces_function :
    printState.atRoot "print" = some ⟨.function, some (.function ⟨0⟩)⟩ ∧
      ∃ s', (Interpreter.run (Evaluator.within 5) branchingScript).run printState = .ok .null s' ∧
        s'.atRoot "print" = some ⟨.variable, some .null⟩ :=
  ⟨rfl, _, rfl, rfl⟩

end ScriptLang
