/-
Scopes keep their outline.

The outline of a scope is everything but the values of its variables and parameters: its names, what
declared each of them, which of them have no value yet, its labels, and the values of its functions and
classes.  A name is only ever declared in the scope of the list of statements that declares it, and this
scope is new whenever an expression or a block is run.  So expressions, blocks, loops and switches keep
the outline of every scope that was there before (`scopes_keep_outline`); of what is there, they can only
assign to variables and parameters.
-/
import ScriptLang.Proofs.Eval.Runs
import ScriptLang.Proofs.Eval.Surface

namespace ScriptLang

/-! ## Outlines -/

/-- The scope `b` is `a`, apart from the values of variables and parameters that had a value. -/
structure Scope.Outlines (a b : Scope) : Prop where
  names : ∀ name, b.bindings.contains name = a.bindings.contains name
  kind : ∀ name, (b.bindings.get? name).map (·.kind) = (a.bindings.get? name).map (·.kind)
  labels : b.labels = a.labels
  unassigned : ∀ name kind,
    b.bindings.get? name = some ⟨kind, none⟩ ↔ a.bindings.get? name = some ⟨kind, none⟩
  constant : ∀ name binding, a.bindings.get? name = some binding → binding.kind.isMutable = false →
    b.bindings.get? name = some binding

namespace Scope.Outlines

variable {a b c : Scope}

lemma refl (a : Scope) : a.Outlines a :=
  ⟨fun _ => rfl, fun _ => rfl, rfl, fun _ _ => .rfl, fun _ _ h _ => h⟩

lemma trans (h : a.Outlines b) (h' : b.Outlines c) : a.Outlines c where
  names := fun name => (h'.names name).trans (h.names name)
  kind := fun name => (h'.kind name).trans (h.kind name)
  labels := h'.labels.trans h.labels
  unassigned := fun name kind => (h'.unassigned name kind).trans (h.unassigned name kind)
  constant := fun name binding hb hm => h'.constant name binding (h.constant name binding hb hm) hm

lemma assign {name : String} {v : Value} (h : a.assign name v = .ok (some b)) : a.Outlines b := by
  obtain ⟨kind, old, hget, hmutable, rfl⟩ := Scope.of_assign h
  have hother : ∀ other, other ≠ name →
      (a.declare name kind v).bindings.get? other = a.bindings.get? other :=
    fun other hne => Table.get?_insert_of_ne _ _ hne
  have hself : (a.declare name kind v).bindings.get? name = some ⟨kind, some v⟩ :=
    Table.get?_insert_self _ _ _
  refine ⟨fun other => ?_, fun other => ?_, rfl, fun other kind' => ?_, fun other binding hb hm => ?_⟩
  all_goals by_cases hne : other = name
  all_goals first
    | rw [Table.contains, Table.contains, hother other hne]
    | rw [hother other hne]
    | subst hne
  · simp [Table.contains, hself, hget]
  · simp [hself, hget]
  · simp [hself, hget]
  · cases hget.symm.trans hb
    rw [hmutable] at hm
    cases hm
  · exact hb

end Scope.Outlines

/-! ## The regime -/

/-- Whether a statement runs all that it runs in scopes of its own. -/
def StmtForm.isEnclosed : StmtForm → Bool
  | .block _ => true
  | .whileLoop _ _ => true
  | .doWhile _ _ => true
  | .forLoop _ _ _ _ => true
  | .switch _ _ _ => true
  | _ => false

/-- Whether a task declares names in scopes from `floor` on only. -/
def Task.DeclaresFrom (floor : Nat) : Task → Prop
  | .sequence c _ => floor ≤ c.scope.index
  | .execute c st => floor ≤ c.scope.index ∨ st.form.isEnclosed = true
  | _ => True

/-- The scopes below `floor` keep their outline. -/
structure State.Outlines (floor : Nat) (s s' : State) : Prop where
  grows : s.Grows s'
  floor_le : floor ≤ s.scopes.size
  outlines : ∀ index < floor, (s.scopeAt ⟨index⟩).Outlines (s'.scopeAt ⟨index⟩)

namespace State.Outlines

variable {floor : Nat} {s s' s'' : State}

lemma of_scopes (hgrows : s.Grows s') (hfloor : floor ≤ s.scopes.size)
    (h : ∀ index < floor, s'.scopeAt ⟨index⟩ = s.scopeAt ⟨index⟩) : Outlines floor s s' :=
  ⟨hgrows, hfloor, fun index hi => by rw [h index hi]; exact .refl _⟩

lemma refl (h : floor ≤ s.scopes.size) : Outlines floor s s := of_scopes (.refl s) h fun _ _ => rfl

lemma trans (h : Outlines floor s s') (h' : Outlines floor s' s'') : Outlines floor s s'' :=
  ⟨h.grows.trans h'.grows, h.floor_le,
    fun index hi => (h.outlines index hi).trans (h'.outlines index hi)⟩

lemma opened (h : floor ≤ s.scopes.size) : Outlines floor s s.opened := by
  refine of_scopes (.opened s) h fun index hi => ?_
  have hne : index ≠ s.scopes.size := by omega
  simp [State.scopeAt, State.opened, Array.getElem?_push, hne]

/-- A scope above the floor may get any content. -/
lemma withScope_of_le (h : floor ≤ s.scopes.size) {id : ScopeId} (hid : floor ≤ id.index)
    (scope : Scope) : Outlines floor s (s.withScope id scope) := by
  refine of_scopes (.withScope s id scope) h fun index hi => ?_
  rcases s.scopeAt_withScope id ⟨index⟩ scope with ⟨-, rfl⟩ | hsame
  · exact absurd hid (Nat.not_le.mpr hi)
  · exact hsame

lemma assigned (h : floor ≤ s.scopes.size) {id : ScopeId} {scope : Scope} {name : String} {v : Value}
    (hassign : (s.scopeAt id).assign name v = .ok (some scope)) :
    Outlines floor s (s.withScope id scope) := by
  refine ⟨.withScope s id scope, h, fun index hi => ?_⟩
  rcases s.scopeAt_withScope id ⟨index⟩ scope with ⟨hscope, rfl⟩ | hsame
  · rw [hscope]
    exact .assign hassign
  · rw [hsame]
    exact .refl _

end State.Outlines

namespace Regime

/-- A statement that declares names is not enclosed. -/
lemma isEnclosed_of_declared {form : StmtForm} {name : String} {kind : BindingKind}
    (h : (name, kind) ∈ form.declared) : form.isEnclosed = false := by
  cases form with
  | «variables» | function | classDecl => rfl
  | _ => cases h

lemma isEnclosed_of_branches {form : StmtForm} {st : Stmt} (h : st ∈ form.branches) :
    form.isEnclosed = false := by
  cases form with
  | ifElse => rfl
  | _ => cases h

/-- Names are declared in scopes from `floor` on only. -/
def outlining (floor : Nat) : Regime where
  Good := fun s => floor ≤ s.scopes.size
  Kept := State.Outlines floor
  Near := State.Outlines floor
  Knows := fun _ _ => True
  Does := fun _ _ t => t.DeclaresFrom floor
  Stalls := fun _ => True
  refl := .refl
  trans := .trans
  good := fun h => h.floor_le.trans h.grows.scopes
  near := id
  near_trans := .trans
  grows := State.Outlines.grows
  opened := .opened
  entered := id
  left := fun h => ⟨.left h.grows, h.floor_le, h.outlines⟩
  near_left := fun h => ⟨.left h.grows, h.floor_le, h.outlines⟩
  knows := fun _ _ => trivial
  registered := fun _ _ => trivial
  stored := fun _ _ _ _ => trivial
  given := fun _ _ _ _ _ => trivial
  brought := fun _ _ _ => trivial
  operated := fun _ _ => trivial
  handled := fun _ _ h => h
  change := by
    intro n t s₀ s s' hs hchange
    have hgrows : s.Grows s' := hchange.grows fun _ _ h => h.grows
    have hfloor : floor ≤ s.scopes.size := hs.kept.floor_le.trans hs.kept.grows.scopes
    have hdoes : t.DeclaresFrom floor := hs.does
    cases hchange with
    | reserved | labelled => exact .withScope_of_le hfloor hdoes _
    | declared hname =>
      rcases hdoes with hle | henclosed
      · exact .withScope_of_le hfloor hle _
      · rw [isEnclosed_of_declared hname] at henclosed
        cases henclosed
    | parameter _ hid =>
      subst hid
      exact .withScope_of_le hfloor hs.start _
    | assigned _ _ hassign => exact .assigned hfloor hassign
    | array | object | closure | taken | element | property | fieldSetUp | fieldWritten | fieldOfHost
    | registered | staticSetUp | staticWritten | printed | cancelled | turned =>
      exact .of_scopes hgrows hfloor fun _ _ => rfl
  lead := by
    intro n t s₀ s t' s' hs hlead
    have hfloor : floor ≤ s.scopes.size := hs.kept.floor_le.trans hs.kept.grows.scopes
    have hstart : floor ≤ s₀.scopes.size := hs.start
    have hdoes : t.DeclaresFrom floor := hs.does
    cases hlead with
    | branch hst =>
      refine ⟨hfloor, .inl (hdoes.resolve_right ?_)⟩
      simp [isEnclosed_of_branches hst]
    | block _ hscope | body hscope | constructor _ _ _ hscope => exact ⟨hfloor, hstart.trans hscope⟩
    | turn _ _ hscope =>
      refine ⟨hfloor, ?_⟩
      unfold Stmt.turn
      split
      · exact hstart.trans hscope
      · exact .inl (hstart.trans hscope)
    | listed => exact ⟨hfloor, .inl hdoes⟩
    | called _ hcalls =>
      cases hcalls <;> exact ⟨hfloor, trivial⟩
    | evaluate | initializer | assign | constructed | parent | hostConstructor | callBack
    | memberForHost => exact ⟨hfloor, trivial⟩
  constructed := fun hs h _ => .trans (.of_scopes (.withInstance _ _) hs fun _ _ => rfl) h
  abandoned := fun hs h => .trans (.of_scopes (.withInstance _ _) hs fun _ _ => rfl) h
  exhausted := fun _ _ => trivial
  endless := fun _ _ => trivial
  stalls_left := id
  halting := .inl fun _ _ => trivial

end Regime

/-! ## Runs -/

/-- Whether a task runs all that it runs in scopes of its own. -/
def Task.isEnclosed : Task → Bool
  | .execute _ st => st.form.isEnclosed
  | .sequence _ _ => false
  | _ => true

/-- **Block scoping does not leak.**  Evaluating, assigning, calling and constructing, and executing
blocks, loops and switches, keep the outline of every scope that was there before, with a result or
without. -/
theorem scopes_keep_outline (n : Nat) (t : Task) (s : State) (ht : t.isEnclosed = true) (id : ScopeId)
    (hid : id.index < s.scopes.size) :
    (s.scopeAt id).Outlines ((((Evaluator.within n).perform t).after s).scopeAt id) := by
  have hdoes : t.DeclaresFrom s.scopes.size := by
    cases t with
    | execute c st => exact .inr ht
    | sequence => cases ht
    | _ => trivial
  have hleft := (Evaluator.within_heeds (.outlining s.scopes.size) n).perform t s (Nat.le_refl _) hdoes
  cases hr : ((Evaluator.within n).perform t).run s with
  | ok a s' =>
    rw [hr] at hleft
    rw [Exec.after_of_ok hr]
    exact hleft.1.outlines id.index hid
  | error e s' =>
    rw [hr] at hleft
    rw [Exec.after_of_error hr]
    exact hleft.1.outlines id.index hid

/-- A block that declares `y` and assigns its value to `x`. -/
def assigningBlock : Stmt :=
  ⟨⟨1, 1⟩, .block [⟨⟨1, 3⟩, .variables [("y", none)]⟩, ⟨⟨1, 10⟩, .expr ⟨⟨1, 12⟩,
    .binary "=" ⟨⟨1, 10⟩, .variable "x"⟩ ⟨⟨1, 14⟩, .variable "y"⟩⟩⟩]⟩

/-- An interpreter in which `x` is a variable of the root. -/
def outerState : State :=
  { plainState with
    scopes := #[{ bindings := .ofList [("x", ⟨.variable, some (.boolean true)⟩)] }] }

/-- The block changes the value of `x`, and `y` stays inside. -/
theorem scopes_keep_outline_block :
    (((Evaluator.within 5).perform (.execute Interpreter.root assigningBlock)).after
      outerState).scopeAt ⟨0⟩ = { bindings := .ofList [("x", ⟨.variable, some .null⟩)] } ∧
    (outerState.scopeAt ⟨0⟩).Outlines
      ((((Evaluator.within 5).perform (.execute Interpreter.root assigningBlock)).after
        outerState).scopeAt ⟨0⟩) :=
  ⟨rfl, scopes_keep_outline 5 _ outerState rfl ⟨0⟩ (by decide)⟩

end ScriptLang
