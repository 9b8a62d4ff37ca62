/-
What a list enters into its scope.

Before the first statement of a list runs, the names and labels that its statements declare are entered into
the scope, one after the other.  This goes well exactly if none of them is in the scope or was entered before
(`Scope.Admits`).  Otherwise the list is refused at the first one that is (`hoisting_reports_conflicts`), and
none of its statements runs.

What was entered before that point is not taken back.  In a block this does not matter, since the scope ends
with its list.  The root goes on, and there the names stay reserved without ever getting a value
(`rejected_list_leaves_reservations`).
-/
import ScriptLang.Proofs.Scope.Constants

namespace ScriptLang

/-! ## Entries -/

/-- A name or a label that a statement enters into the scope of its list. -/
inductive Hoisted where
  | name (name : String) (kind : BindingKind)
  | label (label : String)

namespace Hoisted

/-- The names that are kept for some entries. -/
def names (naming : Naming) (entries : List Hoisted) : List String :=
  entries.filterMap fun
    | .name x _ => some (naming.keep x)
    | .label _ => none

/-- The labels among some entries. -/
def labels (entries : List Hoisted) : List String :=
  entries.filterMap fun
    | .name _ _ => none
    | .label l => some l

/-- The failure of entering what is there already. -/
def refusal (naming : Naming) : Hoisted → Cause
  | .name x _ => .alreadyDeclared (naming.keep x)
  | .label l => .duplicateLabel l

/-- What is entered is in the scope or was entered before. -/
def Clashes (naming : Naming) (scope : Scope) (earlier : List Hoisted) : Hoisted → Prop
  | .name x _ => scope.bindings.contains (naming.keep x) = true ∨ naming.keep x ∈ names naming earlier
  | .label l => l ∈ scope.labels ∨ l ∈ labels earlier

instance (naming : Naming) (scope : Scope) (earlier : List Hoisted) :
    (e : Hoisted) → Decidable (e.Clashes naming scope earlier)
  | .name _ _ => inferInstanceAs (Decidable (_ ∨ _))
  | .label _ => inferInstanceAs (Decidable (_ ∨ _))

variable {naming : Naming} {x l : String} {kind : BindingKind} {entries : List Hoisted}

lemma names_name_cons : names naming (.name x kind :: entries) = naming.keep x :: names naming entries := rfl

lemma labels_label_cons : labels (.label l :: entries) = l :: labels entries := rfl

end Hoisted

/-- What a statement enters. -/
def StmtForm.entries : StmtForm → List Hoisted
  | .label l => [.label l]
  | form => form.declared.map fun d => .name d.1 d.2

/-- What the statements of a list enter, each with the place of its statement. -/
def entriesOf (body : List Stmt) : List (Position × Hoisted) :=
  body.flatMap fun st => st.form.entries.map (st.place, ·)

namespace Scope

/-- The scope with one more entry. -/
def enter (naming : Naming) (scope : Scope) : Hoisted → Scope
  | .name x kind => { scope with bindings := scope.bindings.insert (naming.keep x) ⟨kind, none⟩ }
  | .label l => { scope with labels := l :: scope.labels }

/-- The scope with further entries. -/
def enterAll (naming : Naming) (scope : Scope) (entries : List Hoisted) : Scope :=
  entries.foldl (enter naming) scope

/-- All the entries are new to the scope, and no two of them are the same. -/
structure Admits (naming : Naming) (scope : Scope) (entries : List Hoisted) : Prop where
  names : (Hoisted.names naming entries).Nodup
  newNames : ∀ x ∈ Hoisted.names naming entries, scope.bindings.contains x = false
  labels : (Hoisted.labels entries).Nodup
  newLabels : ∀ l ∈ Hoisted.labels entries, l ∉ scope.labels

variable {naming : Naming} {scope : Scope} {e e' : Hoisted} {entries : List Hoisted} {x l : String}
  {kind : BindingKind}

lemma contains_enter_name : (scope.enter naming (.name x kind)).bindings.contains l = true ↔
    l = naming.keep x ∨ scope.bindings.contains l = true := by
  simp only [enter, Table.contains, Table.get?_insert]
  split
  next heq => simp [heq]
  next hne => simp [hne]

/-- What was entered first counts as if it had been in the scope. -/
lemma clashes_cons :
    e'.Clashes naming scope (e :: entries) ↔ e'.Clashes naming (scope.enter naming e) entries := by
  cases e with
  | name x kind =>
    cases e' with
    | name y kind' =>
      simp only [Hoisted.Clashes, contains_enter_name, Hoisted.names_name_cons, List.mem_cons]
      tauto
    | label l => rfl
  | label l =>
    cases e' with
    | name y kind' => rfl
    | label l' =>
      simp only [Hoisted.Clashes, enter, Hoisted.labels_label_cons, List.mem_cons]
      tauto

lemma admits_iff : scope.Admits naming entries ↔
    ((Hoisted.names naming entries).Nodup ∧
      ∀ x ∈ Hoisted.names naming entries, ¬scope.bindings.contains x = true) ∧
    (Hoisted.labels entries).Nodup ∧ ∀ l ∈ Hoisted.labels entries, l ∉ scope.labels := by
  simp only [Bool.not_eq_true]
  exact ⟨fun h => ⟨⟨h.names, h.newNames⟩, h.labels, h.newLabels⟩, fun h => ⟨h.1.1, h.1.2, h.2.1, h.2.2⟩⟩

lemma admits_nil : scope.Admits naming [] :=
  ⟨List.nodup_nil, nofun, List.nodup_nil, nofun⟩

/-- Different things are new if the first is, and the others are new besides it. -/
lemma nodup_cons_new {α : Type} {a : α} {l : List α} {old : α → Prop} :
    ((a :: l).Nodup ∧ ∀ b ∈ a :: l, ¬old b) ↔ ¬old a ∧ l.Nodup ∧ ∀ b ∈ l, ¬(b = a ∨ old b) := by
  simp only [List.nodup_cons, List.forall_mem_cons, not_or]
  constructor
  · rintro ⟨⟨ha, hl⟩, hold, hnew⟩
    exact ⟨hold, hl, fun b hb => ⟨ne_of_mem_of_not_mem hb ha, hnew b hb⟩⟩
  · rintro ⟨hold, hl, hnew⟩
    exact ⟨⟨fun ha => (hnew a ha).1 rfl, hl⟩, hold, fun b hb => (hnew b hb).2⟩

/-- The first of some entries is new, and the others are new to the scope that has the first one. -/
lemma admits_cons : scope.Admits naming (e :: entries) ↔
    ¬e.Clashes naming scope [] ∧ (scope.enter naming e).Admits naming entries := by
  cases e with
  | name x kind =>
    have hfree : (Hoisted.name x kind).Clashes naming scope [] ↔
        scope.bindings.contains (naming.keep x) = true := by
      simp [Hoisted.Clashes, Hoisted.names]
    simp only [admits_iff, contains_enter_name, hfree]
    rw [Hoisted.names_name_cons, nodup_cons_new, and_assoc]
    rfl
  | label l =>
    have hfree : (Hoisted.label l).Clashes naming scope [] ↔ l ∈ scope.labels := by
      simp [Hoisted.Clashes, Hoisted.labels]
    simp only [admits_iff, enter, List.mem_cons, hfree]
    rw [Hoisted.labels_label_cons, nodup_cons_new, and_left_comm]
    rfl

lemma admits_append {later : List Hoisted} : scope.Admits naming (entries ++ later) ↔
    scope.Admits naming entries ∧ (scope.enterAll naming entries).Admits naming later := by
  induction entries generalizing scope with
  | nil => exact (and_iff_right admits_nil).symm
  | cons e entries ih =>
    rw [List.cons_append, admits_cons, admits_cons, ih, and_assoc]
    rfl

lemma clashes_enterAll : e.Clashes naming (scope.enterAll naming entries) [] ↔
    e.Clashes naming scope entries := by
  induction entries generalizing scope with
  | nil => rfl
  | cons e' entries ih => exact ih.trans clashes_cons.symm

/-- If not all the entries are new, one of them is the first that is not. -/
lemma exists_clash {l : List (Position × Hoisted)} (h : ¬scope.Admits naming (l.map (·.2))) :
    ∃ earlier place e later, l = earlier ++ (place, e) :: later ∧
      scope.Admits naming (earlier.map (·.2)) ∧ e.Clashes naming scope (earlier.map (·.2)) := by
  induction l generalizing scope with
  | nil => exact absurd admits_nil h
  | cons p l ih =>
    -- What follows an entry that is new is judged in the scope that has it.
    by_cases hclash : p.2.Clashes naming scope []
    · exact ⟨[], p.1, p.2, l, rfl, admits_nil, hclash⟩
    · rw [List.map_cons, admits_cons, not_and] at h
      obtain ⟨earlier, place, e, later, rfl, hadmits, hfirst⟩ := ih (h hclash)
      exact ⟨p :: earlier, place, e, later, rfl, admits_cons.mpr ⟨hclash, hadmits⟩, clashes_cons.mpr hfirst⟩

/-- The scope `after` is `scope` with some entries: the names among them are reserved, and no other name
has changed. -/
structure Extended (naming : Naming) (scope : Scope) (entries : List Hoisted) (after : Scope) : Prop where
  reserved : ∀ x kind, .name x kind ∈ entries → after.bindings.get? (naming.keep x) = some ⟨kind, none⟩
  kept : ∀ x, x ∉ Hoisted.names naming entries → after.bindings.get? x = scope.bindings.get? x
  labels : ∀ l, l ∈ after.labels ↔ l ∈ scope.labels ∨ l ∈ Hoisted.labels entries

lemma Admits.extended (h : scope.Admits naming entries) :
    scope.Extended naming entries (scope.enterAll naming entries) := by
  induction entries generalizing scope with
  | nil => exact ⟨nofun, fun _ _ => rfl, fun l => by simp [enterAll, Hoisted.labels]⟩
  | cons e entries ih =>
    obtain ⟨hreserved, hkept, hlabels⟩ := ih (admits_cons.mp h).2
    cases e with
    | name x kind =>
      have hnodup := h.names
      rw [Hoisted.names_name_cons, List.nodup_cons] at hnodup
      refine ⟨fun y kind' hmem => ?_, fun y hy => ?_, hlabels⟩
      · rcases List.mem_cons.mp hmem with heq | hmem
        · cases heq
          exact (hkept _ hnodup.1).trans (by simp [enter])
        · exact hreserved y kind' hmem
      · rw [Hoisted.names_name_cons, List.mem_cons, not_or] at hy
        exact (hkept y hy.2).trans (Table.get?_insert_of_ne _ _ hy.1)
    | label l =>
      refine ⟨fun y kind' hmem => ?_, hkept, fun l' => (hlabels l').trans ?_⟩
      · rcases List.mem_cons.mp hmem with heq | hmem
        · cases heq
        · exact hreserved y kind' hmem
      · simp only [enter, Hoisted.labels_label_cons, List.mem_cons]
        tauto

end Scope

/-! ## Entering -/

namespace State

variable {s : State} {id : ScopeId}

lemma size_withScope (s : State) (id : ScopeId) (scope : Scope) :
    (s.withScope id scope).scopes.size = s.scopes.size :=
  Array.size_setIfInBounds

lemma scopeAt_withScope_self (h : id.index < s.scopes.size) (scope : Scope) :
    (s.withScope id scope).scopeAt id = scope := by
  simp [scopeAt, withScope, h]

lemma withScope_withScope (scope scope' : Scope) :
    (s.withScope id scope).withScope id scope' = s.withScope id scope' := by
  simp [withScope]

lemma withScope_scopeAt (s : State) (id : ScopeId) : s.withScope id (s.scopeAt id) = s := by
  have hscopes : s.scopes.setIfInBounds id.index (s.scopes[id.index]?.getD {}) = s.scopes := by
    ext i h₁ h₂
    · exact Array.size_setIfInBounds
    · rw [Array.getElem_setIfInBounds h₂]
      split
      next heq => simp [heq, h₂]
      next => rfl
  simp [withScope, scopeAt, hscopes]

end State

namespace Exec

variable {α β : Type} {c : Context} {s : State} {e : Hoisted} {entries : List (Position × Hoisted)}

/-- Enters a name or a label into the scope of a context. -/
def reserve (c : Context) : Hoisted → Exec Unit
  | .name x kind => hoist c x kind
  | .label l => declareLabel c l

lemma run_reserve_of_not_clashes (h : ¬e.Clashes s.services.naming (s.scopeAt c.scope) []) :
    (reserve c e).run s =
      .ok () (s.withScope c.scope ((s.scopeAt c.scope).enter s.services.naming e)) := by
  cases e with
  | name x kind =>
    have hfree : (s.scopeAt c.scope).bindings.contains (s.services.naming.keep x) = false := by
      simpa [Hoisted.Clashes, Hoisted.names] using h
    simp [reserve, run_hoist, Scope.hoist, hfree, Scope.enter]
  | label l =>
    have hfree : l ∉ (s.scopeAt c.scope).labels := by simpa [Hoisted.Clashes, Hoisted.labels] using h
    simp [reserve, run_declareLabel, Scope.declareLabel, hfree, Scope.enter]

lemma run_reserve_of_clashes (h : e.Clashes s.services.naming (s.scopeAt c.scope) []) :
    (reserve c e).run s = .error (.fault ⟨e.refusal s.services.naming, none⟩) s := by
  cases e with
  | name x kind =>
    have htaken : (s.scopeAt c.scope).bindings.contains (s.services.naming.keep x) = true := by
      simpa [Hoisted.Clashes, Hoisted.names] using h
    simp [reserve, run_hoist, Scope.hoist, htaken, Hoisted.refusal]
  | label l =>
    have htaken : l ∈ (s.scopeAt c.scope).labels := by simpa [Hoisted.Clashes, Hoisted.labels] using h
    simp [reserve, run_declareLabel, Scope.declareLabel, htaken, Hoisted.refusal]

/-- Enters names and labels, each on behalf of what stands at a place. -/
def reserveAll (c : Context) (entries : List (Position × Hoisted)) : Exec Unit :=
  entries.forM fun p => located p.1 (reserve c p.2)

lemma reserveAll_append (entries later : List (Position × Hoisted)) :
    reserveAll c (entries ++ later) = reserveAll c entries >>= fun _ => reserveAll c later := by
  simp [reserveAll]

lemma run_reserveAll_of_admits (hc : c.scope.index < s.scopes.size)
    (h : (s.scopeAt c.scope).Admits s.services.naming (entries.map (·.2))) :
    (reserveAll c entries).run s =
      .ok () (s.withScope c.scope ((s.scopeAt c.scope).enterAll s.services.naming (entries.map (·.2)))) := by
  induction entries generalizing s with
  | nil => exact congrArg (EStateM.Result.ok ()) (s.withScope_scopeAt c.scope).symm
  | cons p entries ih =>
    rw [List.map_cons, Scope.admits_cons] at h
    have hfirst := run_located_of_ok (p := p.1) (run_reserve_of_not_clashes h.1)
    have hscope := State.scopeAt_withScope_self hc ((s.scopeAt c.scope).enter s.services.naming p.2)
    have hrest := ih (s := s.withScope c.scope ((s.scopeAt c.scope).enter s.services.naming p.2))
      (by rwa [State.size_withScope]) (by rw [hscope]; exact h.2)
    rw [hscope, State.withScope_withScope] at hrest
    exact (run_bind_ok hfirst).trans hrest

/-- Entering ends at the first entry that is there already. -/
lemma run_reserveAll_of_clashes (hc : c.scope.index < s.scopes.size) {later : List (Position × Hoisted)}
    {place : Position} (h : (s.scopeAt c.scope).Admits s.services.naming (entries.map (·.2)))
    (hclash : e.Clashes s.services.naming (s.scopeAt c.scope) (entries.map (·.2))) :
    (reserveAll c (entries ++ (place, e) :: later)).run s =
      .error (.fault ⟨e.refusal s.services.naming, some place⟩)
        (s.withScope c.scope ((s.scopeAt c.scope).enterAll s.services.naming (entries.map (·.2)))) := by
  have hlocate : (⟨e.refusal s.services.naming, none⟩ : Fault).locate place =
      ⟨e.refusal s.services.naming, some place⟩ := by
    refine Fault.locate_bare ?_ _
    cases e <;> nofun
  rw [reserveAll_append, run_bind_ok (run_reserveAll_of_admits hc h)]
  refine run_bind_error ?_
  rw [← hlocate]
  refine run_located_of_error (run_reserve_of_clashes ?_)
  rw [State.scopeAt_withScope_self hc]
  exact Scope.clashes_enterAll.mpr hclash

lemma located_forM (p : Position) (l : List α) (f : α → Exec Unit) :
    located p (l.forM f) = l.forM fun a => located p (f a) := by
  induction l with
  | nil => rfl
  | cons a l ih =>
    have hcons : ∀ g : α → Exec Unit, (a :: l).forM g = g a >>= fun _ => l.forM g := fun _ => rfl
    rw [hcons, hcons, located_bind, ih]

end Exec

lemma Stmt.hoist_eq (st : Stmt) (c : Context) : st.hoist c = st.form.entries.forM (Exec.reserve c) := by
  unfold Stmt.hoist
  cases st.form with
  | «variables» declarators => simp [StmtForm.entries, StmtForm.declared, Exec.reserve]
  | function decl =>
    cases hname : decl.name with
    | none => simp [StmtForm.entries, StmtForm.declared, hname]
    | some name => simp [StmtForm.entries, StmtForm.declared, hname, Exec.reserve]
  | _ => simp [StmtForm.entries, StmtForm.declared, Exec.reserve]

lemma hoistAll_eq (c : Context) (body : List Stmt) : hoistAll c body = Exec.reserveAll c (entriesOf body) := by
  induction body with
  | nil => rfl
  | cons st body ih =>
    have hfirst : Exec.located st.place (st.hoist c) =
        Exec.reserveAll c (st.form.entries.map (st.place, ·)) := by
      rw [st.hoist_eq, Exec.located_forM]
      simp [Exec.reserveAll]
    rw [entriesOf, List.flatMap_cons, Exec.reserveAll_append, ← hfirst]
    exact congrArg (Exec.located st.place (st.hoist c) >>= fun _ => ·) ih

/-! ## Labels of a list -/

section Labels

variable {l : String} {body : List Stmt}

lemma labels_entriesOf_cons (st : Stmt) (body : List Stmt) :
    Hoisted.labels ((entriesOf (st :: body)).map (·.2)) =
      Hoisted.labels st.form.entries ++ Hoisted.labels ((entriesOf body).map (·.2)) := by
  simp [Hoisted.labels, entriesOf, Function.comp_def]

lemma mem_labels_entries {form : StmtForm} : l ∈ Hoisted.labels form.entries ↔ form = .label l := by
  have hnames : ∀ names : List (String × BindingKind),
      l ∉ Hoisted.labels (names.map fun d => .name d.1 d.2) := by
    intro names
    simp [Hoisted.labels]
  cases form with
  | label l' => simp [StmtForm.entries, Hoisted.labels, eq_comm]
  | _ => exact iff_of_false (hnames _) nofun

lemma mem_labels_entriesOf :
    l ∈ Hoisted.labels ((entriesOf body).map (·.2)) ↔ ∃ st ∈ body, st.form = .label l := by
  induction body with
  | nil => simp [entriesOf, Hoisted.labels]
  | cons st body ih =>
    rw [labels_entriesOf_cons, List.mem_append, mem_labels_entries, ih]
    simp

/-- The labels of a list are different.  Then a jump to one of them goes on at its statement. -/
lemma fromLabel?_eq_drop (h : (Hoisted.labels ((entriesOf body).map (·.2))).Nodup) {i : Nat} {st : Stmt}
    (hst : body[i]? = some st) (hform : st.form = .label l) : fromLabel? l body = some (body.drop i) := by
  induction body generalizing i with
  | nil => cases hst
  | cons st₀ body ih =>
    rw [labels_entriesOf_cons, List.nodup_append] at h
    cases i with
    | zero =>
      obtain rfl : st₀ = st := Option.some.inj hst
      simp [fromLabel?, hform]
    | succ i =>
      have hlater : l ∈ Hoisted.labels ((entriesOf body).map (·.2)) :=
        mem_labels_entriesOf.mpr ⟨st, List.mem_of_getElem? hst, hform⟩
      -- The first statement has another label, for this one comes later.
      have hother : ∀ l', st₀.form = .label l' → l' ≠ l :=
        fun l' hl' => h.2.2 l' (mem_labels_entries.mpr hl') l hlater
      have hskip : fromLabel? l (st₀ :: body) = fromLabel? l body := by
        rw [fromLabel?]
        split
        next l' hl' => rw [if_neg (hother l' hl')]
        next => rfl
      rw [hskip, List.drop_succ_cons]
      exact ih h.2.1 hst

end Labels

/-! ## Lists of statements -/

section Lists

variable {c : Context} {s : State} {body : List Stmt}

lemma run_hoistAll_of_admits (hc : c.scope.index < s.scopes.size)
    (h : (s.scopeAt c.scope).Admits s.services.naming ((entriesOf body).map (·.2))) :
    (hoistAll c body).run s = .ok () (s.withScope c.scope
      ((s.scopeAt c.scope).enterAll s.services.naming ((entriesOf body).map (·.2)))) := by
  rw [hoistAll_eq, Exec.run_reserveAll_of_admits hc h]

/-- A list is entered, or refused at the first entry that is there already. -/
lemma run_hoistAll (hc : c.scope.index < s.scopes.size) (body : List Stmt) :
    (s.scopeAt c.scope).Admits s.services.naming ((entriesOf body).map (·.2)) ∧
        (hoistAll c body).run s = .ok () (s.withScope c.scope
          ((s.scopeAt c.scope).enterAll s.services.naming ((entriesOf body).map (·.2)))) ∨
      ∃ earlier place e later, entriesOf body = earlier ++ (place, e) :: later ∧
        (s.scopeAt c.scope).Admits s.services.naming (earlier.map (·.2)) ∧
        e.Clashes s.services.naming (s.scopeAt c.scope) (earlier.map (·.2)) ∧
        (hoistAll c body).run s = .error (.fault ⟨e.refusal s.services.naming, some place⟩)
          (s.withScope c.scope
            ((s.scopeAt c.scope).enterAll s.services.naming (earlier.map (·.2)))) := by
  by_cases h : (s.scopeAt c.scope).Admits s.services.naming ((entriesOf body).map (·.2))
  · exact .inl ⟨h, run_hoistAll_of_admits hc h⟩
  · obtain ⟨earlier, place, e, later, hsplit, hearlier, hclash⟩ := Scope.exists_clash h
    refine .inr ⟨earlier, place, e, later, hsplit, hearlier, hclash, ?_⟩
    rw [hoistAll_eq, hsplit, Exec.run_reserveAll_of_clashes hc hearlier hclash]

lemma hoistAll_ok_iff (hc : c.scope.index < s.scopes.size) :
    (∃ s', (hoistAll c body).run s = .ok () s') ↔
      (s.scopeAt c.scope).Admits s.services.naming ((entriesOf body).map (·.2)) := by
  refine ⟨fun ⟨s', hok⟩ => ?_, fun h => ?_⟩
  · rcases run_hoistAll hc body with ⟨h, -⟩ | ⟨_, _, _, _, -, -, -, herror⟩
    · exact h
    · rw [herror] at hok
      cases hok
  · exact ⟨_, run_hoistAll_of_admits hc h⟩

end Lists

/-- **Lists are refused for conflicts, and for nothing else.**  The names and labels that the statements of a
list declare are entered into the scope exactly if they are new and no two of them are the same.  Afterwards
the names are reserved with their kinds, the labels are there, and nothing else has changed; a jump to a label
goes on at its statement; and the statements start to run.  Otherwise the list is refused at the first
declaration that is in conflict with the scope or with an earlier one, at the place of its statement, by any
evaluator, so that none of the statements runs. -/
theorem hoisting_reports_conflicts {c : Context} {s : State} (hc : c.scope.index < s.scopes.size)
    (body : List Stmt) :
    let naming := s.services.naming
    let scope := s.scopeAt c.scope
    let entries := (entriesOf body).map (·.2)
    ((∃ s', (hoistAll c body).run s = .ok () s') ↔ scope.Admits naming entries) ∧
    (scope.Admits naming entries → ∃ after, scope.Extended naming entries after ∧
      (hoistAll c body).run s = .ok () (s.withScope c.scope after) ∧
      (s.withScope c.scope after).scopeAt c.scope = after ∧
      (∀ l i st, body[i]? = some st → st.form = .label l → fromLabel? l body = some (body.drop i)) ∧
      (∀ l, (∀ st ∈ body, st.form ≠ .label l) → fromLabel? l body = none) ∧
      ∀ ev : Evaluator, (ev.runSequence c body).run s =
        (ev.runFrom c body ev.bound body).run (s.withScope c.scope after)) ∧
    (¬scope.Admits naming entries → ∃ earlier place e later after,
      entriesOf body = earlier ++ (place, e) :: later ∧
      scope.Admits naming (earlier.map (·.2)) ∧ e.Clashes naming scope (earlier.map (·.2)) ∧
      ∀ ev : Evaluator, (ev.runSequence c body).run s =
        .error (.fault ⟨e.refusal naming, some place⟩) (s.withScope c.scope after)) := by
  intro naming scope entries
  refine ⟨hoistAll_ok_iff hc, fun h => ?_, fun h => ?_⟩
  · have hrun := run_hoistAll_of_admits hc h
    refine ⟨_, h.extended, hrun, State.scopeAt_withScope_self hc _, fun l i st => fromLabel?_eq_drop h.labels,
      fun l hnone => ?_, fun ev => run_bind_ok hrun⟩
    rw [← Option.not_isSome_iff_eq_none, isSome_fromLabel?_iff]
    rintro ⟨st, hst, hform⟩
    exact hnone st hst hform
  · rcases run_hoistAll hc body with ⟨hadmits, -⟩ | ⟨earlier, place, e, later, hsplit, hearlier, hclash, hrun⟩
    · exact absurd hadmits h
    · exact ⟨earlier, place, e, later, _, hsplit, hearlier, hclash, fun ev => run_bind_error hrun⟩

/-- The script `var x, y; L: var z;`. -/
def labelledDeclarations : List Stmt :=
  [⟨⟨1, 1⟩, .variables [("x", none), ("y", none)]⟩, ⟨⟨2, 1⟩, .label "L"⟩, ⟨⟨2, 4⟩, .variables [("z", none)]⟩]

lemma admits_labelledDeclarations : (printState.scopeAt Interpreter.root.scope).Admits .exact
    ((entriesOf labelledDeclarations).map (·.2)) := by
  constructor <;> decide

/-- The script is entered and `print` stays.  It is not entered if it declares `print` at its end. -/
theorem hoisting_reports_conflicts_labelled :
    (∃ after, (hoistAll Interpreter.root labelledDeclarations).run printState =
        .ok () (printState.withScope Interpreter.root.scope after) ∧
      after.bindings.get? "z" = some ⟨.variable, none⟩ ∧
      after.bindings.get? "print" = printState.atRoot "print" ∧ "L" ∈ after.labels) ∧
    fromLabel? "L" labelledDeclarations = some (labelledDeclarations.drop 1) ∧
    ¬∃ s', (hoistAll Interpreter.root
      (labelledDeclarations ++ [⟨⟨3, 1⟩, .variables [("print", none)]⟩])).run printState = .ok () s' := by
  have hroot : Interpreter.root.scope.index < printState.scopes.size := by decide
  obtain ⟨-, hentered, -⟩ := hoisting_reports_conflicts hroot labelledDeclarations
  obtain ⟨after, hextended, hrun, -, hjump, -⟩ := hentered admits_labelledDeclarations
  refine ⟨⟨after, hrun, ?_, ?_, ?_⟩, hjump "L" 1 _ rfl rfl, ?_⟩
  · exact hextended.reserved "z" .variable (.tail _ (.tail _ (.tail _ (.head _))))
  · exact hextended.kept "print" (by decide)
  · exact (hextended.labels "L").mpr (.inr (by decide))
  · rw [(hoisting_reports_conflicts hroot _).1]
    exact fun h => absurd (h.newNames "print" (by decide)) (by decide)

/-! ## Refused scripts -/

/-- The scope has all that was entered into it. -/
lemma Scope.Admits.eq_nil {naming : Naming} {scope : Scope} {entries : List Hoisted}
    (h : scope.Admits naming entries) (heq : scope.enterAll naming entries = scope) : entries = [] := by
  cases entries with
  | nil => rfl
  | cons e entries =>
    exfalso
    obtain ⟨hreserved, -, hlabels⟩ := h.extended
    rw [heq] at hreserved hlabels
    cases e with
    | name x kind =>
      have hnew := h.newNames (naming.keep x) List.mem_cons_self
      rw [Table.contains, hreserved x kind List.mem_cons_self] at hnew
      cases hnew
    | label l => exact h.newLabels l List.mem_cons_self ((hlabels l).mpr (.inr List.mem_cons_self))

/-- **A refused script leaves what it had reserved.**  Suppose that a script is refused because a name or a
label cannot be entered at the root.  Then it ends there.  The root has the names and labels of the declarations
before that one, the names with their kinds and without a value, and nothing else has changed; so nothing at all
has changed exactly if the first declaration was refused.  A script that comes next is entered exactly if
it can be entered after these declarations, even if it would have been entered before the refused one. -/
theorem rejected_list_leaves_reservations {s s' : State} {body : List Stmt} {halt : Halt}
    (hroot : Interpreter.root.scope.index < s.scopes.size)
    (hrefused : (hoistAll Interpreter.root body).run s = .error halt s') :
    let naming := s.services.naming
    let before := s.scopeAt Interpreter.root.scope
    let after := s'.scopeAt Interpreter.root.scope
    (∀ n, (Interpreter.run (Evaluator.within (n + 1)) body).run s = .error halt s') ∧
    s' = s.withScope Interpreter.root.scope after ∧
    ∃ earlier place e later, entriesOf body = earlier ++ (place, e) :: later ∧
      before.Admits naming (earlier.map (·.2)) ∧ e.Clashes naming before (earlier.map (·.2)) ∧
      halt = .fault ⟨e.refusal naming, some place⟩ ∧
      before.Extended naming (earlier.map (·.2)) after ∧
      (s' = s ↔ earlier = []) ∧
      ∀ next, (∃ s'', (hoistAll Interpreter.root next).run s' = .ok () s'') ↔
        before.Admits naming ((earlier ++ entriesOf next).map (·.2)) := by
  intro naming before after
  rcases run_hoistAll hroot body with ⟨-, hok⟩ | ⟨earlier, place, e, later, hsplit, hearlier, hclash, hrun⟩
  · rw [hok] at hrefused
    cases hrefused
  rw [hrun] at hrefused
  cases hrefused
  have hafter : after = before.enterAll naming (earlier.map (·.2)) := State.scopeAt_withScope_self hroot _
  refine ⟨fun n => run_bind_error (run_bind_error hrun), by rw [hafter], earlier, place, e, later, hsplit,
    hearlier, hclash, rfl, by rw [hafter]; exact hearlier.extended, ⟨fun hsame => ?_, ?_⟩, fun next => ?_⟩
  · have hscope : before.enterAll naming (earlier.map (·.2)) = before := by
      rw [← hafter]
      exact congrArg (·.scopeAt Interpreter.root.scope) hsame
    exact List.map_eq_nil_iff.mp (hearlier.eq_nil hscope)
  · rintro rfl
    exact s.withScope_scopeAt _
  · have hsize : Interpreter.root.scope.index <
        (s.withScope Interpreter.root.scope (before.enterAll naming (earlier.map (·.2)))).scopes.size := by
      rwa [State.size_withScope]
    rw [hoistAll_ok_iff hsize, State.scopeAt_withScope_self hroot, List.map_append, Scope.admits_append,
      and_iff_right hearlier]
    rfl

/-- The script `var x; var x;`. -/
def repeatedDeclaration : List Stmt :=
  [⟨⟨1, 1⟩, .variables [("x", none)]⟩, ⟨⟨2, 1⟩, .variables [("x", none)]⟩]

/-- The script `var x;`. -/
def singleDeclaration : List Stmt := [⟨⟨1, 1⟩, .variables [("x", none)]⟩]

/-- The second declaration is refused, and what the first one has reserved stays. -/
theorem rejected_list_leaves_reservations_repeated :
    ∃ s', (Interpreter.run (Evaluator.within 1) repeatedDeclaration).run plainState =
        .error (.fault ⟨.alreadyDeclared "x", some ⟨2, 1⟩⟩) s' ∧
      s' ≠ plainState ∧ ¬∃ s'', (hoistAll Interpreter.root singleDeclaration).run s' = .ok () s'' := by
  obtain ⟨s', hrefused⟩ : ∃ s', (hoistAll Interpreter.root repeatedDeclaration).run plainState =
      .error (.fault ⟨.alreadyDeclared "x", some ⟨2, 1⟩⟩) s' := ⟨_, rfl⟩
  obtain ⟨hrun, -, earlier, place, e, later, hsplit, -, hclash, -, -, hsame, hnext⟩ :=
    rejected_list_leaves_reservations (by decide) hrefused
  cases earlier with
  | nil =>
    obtain ⟨heq, -⟩ := List.cons.inj hsplit
    cases heq
    exact absurd hclash (by decide)
  | cons p earlier =>
    refine ⟨s', hrun 0, mt hsame.mp (List.cons_ne_nil p earlier), ?_⟩
    rw [hnext]
    intro h
    obtain ⟨rfl, -⟩ := List.cons.inj hsplit
    have hnodup := h.names
    rw [List.cons_append, List.map_cons, Hoisted.names_name_cons, List.nodup_cons] at hnodup
    refine hnodup.1 ?_
    simp [Hoisted.names, entriesOf, singleDeclaration, StmtForm.entries, StmtForm.declared]

/-- A script that is run after a refused one may fail where it would have succeeded before. -/
theorem refused_script_reserves_name :
    plainState.atRoot "x" = none ∧
    (∃ s, (Interpreter.run (Evaluator.within 2) singleDeclaration).run plainState = .ok .null s) ∧
    ∃ s', (Interpreter.run (Evaluator.within 2) repeatedDeclaration).run plainState =
        .error (.fault ⟨.alreadyDeclared "x", some ⟨2, 1⟩⟩) s' ∧
      s'.atRoot "x" = some ⟨.variable, none⟩ ∧
      ∃ s'', (Interpreter.run (Evaluator.within 2) singleDeclaration).run s' =
        .error (.fault ⟨.alreadyDeclared "x", some ⟨1, 1⟩⟩) s'' :=
  ⟨rfl, ⟨_, rfl⟩, _, rfl, rfl, _, rfl⟩

end ScriptLang
