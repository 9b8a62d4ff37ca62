/-
How a pattern takes a value apart.

A pattern assigns the elements of an array, or the characters of a text, to its targets.  The elements are
read once, before anything else is done, so what the targets do to the array in the meantime does not
matter: the assignments run from left to right, each with the element that was there at the start, up to the
first one that fails (`Destructuring.Ends`).  A value with too few elements and a value with none at all are
refused before the first target (`destructuring_assigns_snapshot`).

An assignment to a variable keeps what the other variables hold, so after a pattern of different variables
each of them holds its own element (`Destructuring.Assigns.lookup_eq`).
-/
import ScriptLang.Proofs.Eval.Ending
import ScriptLang.Proofs.Eval.Tracing
import ScriptLang.Proofs.Scope.Agreement

namespace ScriptLang

/-! ## Variables after an assignment -/

section Variables

variable {s s' : State} {c d : Context} {name : String} {v w : Value}

namespace Exec

/-- Looking up a name reads what stands behind it at its home, under whatever name it is kept. -/
lemma run_lookup_of_home {binding : Binding} (h : c.Home s (s.services.naming.keep name) d)
    (hget : (s.scopeAt d.scope).bindings.get? (s.services.naming.keep name) = some binding) :
    (lookup c name).run s = (ofExcept (binding.read name)).run s := by
  have hrun : (lookup c name).run s =
      (lookupIn name (s.services.naming.keep name) c.scopes).run s := rfl
  rw [hrun, lookupIn_eq]
  exact run_atHome_of_home h hget

/-- A name that can be looked up has a home with this value. -/
lemma home_of_lookup_eq_ok (h : (lookup c name).run s = .ok w s) :
    ∃ d binding, c.Home s (s.services.naming.keep name) d ∧
      (s.scopeAt d.scope).bindings.get? (s.services.naming.keep name) = some binding ∧
      binding.read name = .ok w := by
  rcases c.home_or_absent s (s.services.naming.keep name) with ⟨d, hd⟩ | habsent
  · obtain ⟨binding, hget⟩ := Option.isSome_iff_exists.mp hd.contains
    refine ⟨d, binding, hd, hget, ?_⟩
    rw [run_lookup_of_home hd hget] at h
    cases hread : binding.read name with
    | error cause => rw [hread] at h; cases h
    | ok w' => rw [hread] at h; cases h; rfl
  · have hrun : (lookup c name).run s =
        (lookupIn name (s.services.naming.keep name) c.scopes).run s := rfl
    rw [hrun, lookupIn_eq, run_atHome_of_absent habsent] at h
    cases h

/-- An assignment that succeeds is made at the home of the name. -/
lemma assigned_of_assignVariable_eq_ok (h : (assignVariable c name v).run s = .ok () s') :
    ∃ d kind, c.Home s (s.services.naming.keep name) d ∧
      s' = s.assigned d.scope (s.services.naming.keep name) kind v := by
  have hrun : (assignVariable c name v).run s =
      (assignIn name (s.services.naming.keep name) v c.scopes).run s := rfl
  rw [hrun, assignIn_eq] at h
  rcases c.home_or_absent s (s.services.naming.keep name) with ⟨d, hd⟩ | habsent
  · obtain ⟨binding, hget⟩ := Option.isSome_iff_exists.mp hd.contains
    rw [run_atHome_of_home hd hget] at h
    refine ⟨d, binding.kind, hd, ?_⟩
    cases haccept : binding.accept (s.services.naming.keep name) with
    | error cause => rw [haccept] at h; cases h
    | ok _ => rw [haccept] at h; cases h; rfl
  · rw [run_atHome_of_absent habsent] at h
    cases h

/-- After an assignment the name has the new value, and names kept apart from it have theirs. -/
lemma lookup_after_assignVariable (h : (assignVariable c name v).run s = .ok () s') :
    s'.services = s.services ∧ (lookup c name).run s' = .ok v s' ∧
      ∀ other w, s.services.naming.keep other ≠ s.services.naming.keep name →
        (lookup c other).run s = .ok w s → (lookup c other).run s' = .ok w s' := by
  obtain ⟨d, kind, hd, rfl⟩ := assigned_of_assignVariable_eq_ok h
  have hget := s.get?_assigned hd.contains kind v
  have hcontains := s.contains_assigned hd.contains kind v
  refine ⟨rfl, ?_, fun other w hne hlookup => ?_⟩
  · exact run_lookup_of_home (hd.of_contains_eq fun id => hcontains id _)
      ((hget d.scope _).trans (if_pos ⟨rfl, rfl⟩))
  · obtain ⟨d', binding, hd', hbinding, hread⟩ := home_of_lookup_eq_ok hlookup
    have hsame := (hget d'.scope (s.services.naming.keep other)).trans (if_neg fun h => hne h.2)
    have hrun := run_lookup_of_home (hd'.of_contains_eq fun id => hcontains id _) (hsame.trans hbinding)
    rw [hrun, hread]
    rfl

end Exec

/-- To assign to a variable is to assign to its name. -/
lemma Evaluator.run_assignVariable_of_assign {n : Nat} {target : Expr} (hform : target.form = .variable name)
    (h : ((within n).assign c target v).run s = .ok () s') :
    (Exec.assignVariable c name v).run s = .ok () s' := by
  cases n with
  | zero => cases h
  | succ n =>
    have hstep : (within (n + 1)).assign c target v =
        Exec.located target.place ((within n).assignForm c v target.form) := rfl
    rw [hstep, hform] at h
    exact Exec.run_located_eq_ok.mp h

end Variables

/-! ## The run of a pattern -/

namespace Destructuring

variable (ev : Evaluator) (c : Context)

/-- Values are assigned to targets from left to right, and all these assignments succeed. -/
inductive Assigns : List (Expr × Value) → State → Trace → State → Prop
  | nil {s} : Assigns [] s [] s
  | cons {target v rest s s₁ s₂ trace} : (ev.assign c target v).run s = .ok () s₁ →
      Assigns rest s₁ trace s₂ →
      Assigns ((target, v) :: rest) s ((.assign c target v, s) :: trace) s₂

/-- Values are assigned to targets from left to right, up to the first assignment that fails. -/
inductive Ends : List (Expr × Value) → State → Trace → EStateM.Result Halt State Unit → Prop
  | done {pairs s s₁ trace} : Assigns ev c pairs s trace s₁ → Ends pairs s trace (.ok () s₁)
  | failed {before target v after s s₁ e s₂ trace} : Assigns ev c before s trace s₁ →
      (ev.assign c target v).run s₁ = .error e s₂ →
      Ends (before ++ (target, v) :: after) s (trace ++ [(.assign c target v, s₁)]) (.error e s₂)

variable {ev c} {n : Nat} {pairs : List (Expr × Value)} {s s' : State} {trace : Trace} {name other : String}
  {v w : Value}

/-- An assignment that succeeds comes before all that follows. -/
lemma Ends.cons {target : Expr} {s₁ : State} {r : EStateM.Result Halt State Unit}
    (hrun : (ev.assign c target v).run s = .ok () s₁) (h : Ends ev c pairs s₁ trace r) :
    Ends ev c ((target, v) :: pairs) s ((.assign c target v, s) :: trace) r := by
  cases h with
  | done hassigns => exact .done (.cons hrun hassigns)
  | failed hassigns hfail => exact .failed (.cons hrun hassigns) hfail

/-- Where nothing failed, all the assignments were made. -/
lemma Ends.assigns (h : Ends ev c pairs s trace (.ok () s')) : Assigns ev c pairs s trace s' := by
  cases h with
  | done hassigns => exact hassigns

lemma ends_assignEach (n : Nat) (c : Context) (pairs : List (Expr × Value)) (s : State) :
    ∃ trace, Ends (.within n) c pairs s trace (((Evaluator.within n).assignEach c pairs).run s) ∧
      Traced n (fun ev => ev.assignEach c pairs) s trace := by
  induction pairs generalizing s with
  | nil => exact ⟨[], .done .nil, .silent _ s⟩
  | cons pair rest ih =>
    obtain ⟨target, v⟩ := pair
    cases hrun : ((Evaluator.within n).assign c target v).run s with
    | error e s₁ =>
      refine ⟨[(.assign c target v, s)], ?_, .perform_bind_error hrun⟩
      rw [Evaluator.assignEach, run_bind_error hrun]
      exact .failed .nil hrun
    | ok _ s₁ =>
      obtain ⟨trace, hends, htraced⟩ := ih s₁
      refine ⟨(.assign c target v, s) :: trace, ?_, .perform_bind hrun htraced⟩
      rw [Evaluator.assignEach, run_bind_ok hrun]
      exact hends.cons hrun

lemma settles_assignEach (n : Nat) (c : Context) (pairs : List (Expr × Value)) :
    ((Evaluator.within n).assignEach c pairs).Settles := by
  induction pairs with
  | nil => exact .pure _
  | cons pair rest ih => exact .bind (Evaluator.settles_assign n c pair.1 pair.2) fun _ => ih

/-! ## What is refused -/

section Elements

variable {targets : List Expr} {elements : List Value} (ev : Evaluator) (c : Context)

/-- A value without elements is refused. -/
lemma run_destructure_of_elements?_eq_none (targets : List Expr) (h : s.heap.elements? v = none) :
    (ev.destructure c targets v).run s =
      .error (.fault ⟨.typeMismatch ("cannot destructure a " ++ v.typeName), none⟩) s := by
  have hget : (get : Exec State).run s = .ok s s := rfl
  rw [Evaluator.destructure, run_bind_ok hget, h]
  rfl

/-- A pattern without targets and one with more targets than elements are refused. -/
lemma run_destructure_of_mismatch (h : s.heap.elements? v = some elements)
    (hlength : ¬ (0 < targets.length ∧ targets.length ≤ elements.length)) :
    (ev.destructure c targets v).run s =
      .error (.fault ⟨.destructuringMismatch targets.length elements.length, none⟩) s := by
  have hget : (get : Exec State).run s = .ok s s := rfl
  have hrefused : (targets.isEmpty || decide (elements.length < targets.length)) = true := by
    simp only [Bool.or_eq_true, List.isEmpty_iff_length_eq_zero, decide_eq_true_eq]
    omega
  rw [Evaluator.destructure, run_bind_ok hget, h]
  simp only [hrefused, if_true]
  rfl

/-- The elements are those at the start. -/
lemma run_destructure_of_le (h : s.heap.elements? v = some elements) (hpos : 0 < targets.length)
    (hle : targets.length ≤ elements.length) :
    (ev.destructure c targets v).run s = (ev.assignEach c (targets.zip elements)).run s := by
  have hget : (get : Exec State).run s = .ok s s := rfl
  have hkept : (targets.isEmpty || decide (elements.length < targets.length)) = false := by
    simp only [Bool.or_eq_false_iff, List.isEmpty_eq_false_iff, ← List.length_pos_iff,
      decide_eq_false_iff_not]
    omega
  rw [Evaluator.destructure, run_bind_ok hget, h]
  simp only [hkept, Bool.false_eq_true, if_false]

end Elements

/-! ## Variables as targets -/

/-- Assignments to other variables keep what a variable holds. -/
lemma Assigns.lookup_kept (h : Assigns (.within n) c pairs s trace s')
    (hpairs : ∀ pair ∈ pairs, ∃ name, pair.1.form = .variable name ∧
      s.services.naming.keep other ≠ s.services.naming.keep name)
    (hlookup : (Exec.lookup c other).run s = .ok w s) : (Exec.lookup c other).run s' = .ok w s' := by
  induction h with
  | nil => exact hlookup
  | cons hrun _ ih =>
    obtain ⟨name, hform, hne⟩ := hpairs _ List.mem_cons_self
    obtain ⟨hservices, -, hkept⟩ :=
      Exec.lookup_after_assignVariable (Evaluator.run_assignVariable_of_assign hform hrun)
    refine ih (fun pair hpair => ?_) (hkept other w hne hlookup)
    rw [hservices]
    exact hpairs pair (List.mem_cons_of_mem _ hpair)

/-- After assignments to different variables each of them holds its value. -/
lemma Assigns.lookup_eq {targets : List Expr} {elements : List Value} {names : List String}
    (h : Assigns (.within n) c (targets.zip elements) s trace s')
    (hnames : targets.map (·.form) = names.map .variable)
    (hnodup : (names.map s.services.naming.keep).Nodup) :
    ∀ pair ∈ names.zip elements, (Exec.lookup c pair.1).run s' = .ok pair.2 s' := by
  induction targets generalizing elements names s trace with
  | nil =>
    rw [List.map_eq_nil_iff.mp hnames.symm]
    simp
  | cons target targets ih =>
    obtain _ | ⟨name, names⟩ := names
    · cases hnames
    obtain _ | ⟨v, elements⟩ := elements
    · simp
    obtain ⟨hform, hforms⟩ := List.cons.inj hnames
    obtain ⟨hname, hnodup'⟩ := List.nodup_cons.mp hnodup
    cases h with
    | cons hrun hrest =>
      obtain ⟨hservices, hlookup, -⟩ :=
        Exec.lookup_after_assignVariable (Evaluator.run_assignVariable_of_assign hform hrun)
      intro pair hpair
      rcases List.mem_cons.mp hpair with rfl | hpair
      · -- the assignments after this one are to other variables
        refine hrest.lookup_kept (fun other hother => ?_) hlookup
        have hmem : other.1.form ∈ names.map ExprForm.variable :=
          hforms ▸ List.mem_map_of_mem (List.of_mem_zip hother).1
        obtain ⟨name', hname', hform'⟩ := List.mem_map.mp hmem
        refine ⟨name', hform'.symm, fun hkeep => hname ?_⟩
        rw [hservices] at hkeep
        exact hkeep ▸ List.mem_map_of_mem hname'
      · exact ih hrest hforms (hservices ▸ hnodup') pair hpair

end Destructuring

open Destructuring in
/-- **A pattern assigns from a snapshot.**  For every pattern and value and with every bound: if the value
has elements, and there is at least one target and not more than elements, then the assignments to the
targets run from left to right with the elements that were there at the start, up to the first one that
fails, and nothing else is done.  If the targets are different variables and all is well, each of them holds
its element then.  In all other cases the pattern fails at its own place, with nothing asked for and nothing
changed. -/
theorem destructuring_assigns_snapshot (n : Nat) (c : Context) (p : Position) (targets : List Expr)
    (v : Value) (s : State) :
    (∀ elements, s.heap.elements? v = some elements → 0 < targets.length →
      targets.length ≤ elements.length →
      (∃ trace, Ends (.within n) c (targets.zip elements) s trace
          (((Evaluator.within (n + 1)).assign c ⟨p, .array targets⟩ v).run s) ∧
        Traced n (fun ev => ev.step (.assign c ⟨p, .array targets⟩ v)) s trace) ∧
      ∀ (names : List String) (s' : State), targets.map (·.form) = names.map .variable →
        (names.map s.services.naming.keep).Nodup →
        ((Evaluator.within (n + 1)).assign c ⟨p, .array targets⟩ v).run s = .ok () s' →
        ∀ pair ∈ names.zip elements, (Exec.lookup c pair.1).run s' = .ok pair.2 s') ∧
    (s.heap.elements? v = none →
      ((Evaluator.within (n + 1)).assign c ⟨p, .array targets⟩ v).run s =
        .error (.fault ⟨.typeMismatch ("cannot destructure a " ++ v.typeName), some p⟩) s ∧
      Traced n (fun ev => ev.step (.assign c ⟨p, .array targets⟩ v)) s []) ∧
    (∀ elements, s.heap.elements? v = some elements →
      ¬ (0 < targets.length ∧ targets.length ≤ elements.length) →
      ((Evaluator.within (n + 1)).assign c ⟨p, .array targets⟩ v).run s =
        .error (.fault ⟨.destructuringMismatch targets.length elements.length, some p⟩) s ∧
      Traced n (fun ev => ev.step (.assign c ⟨p, .array targets⟩ v)) s []) := by
  have hstep (ev : Evaluator) : ev.step (.assign c ⟨p, .array targets⟩ v) =
      Exec.located p (ev.destructure c targets v) := rfl
  have hrun : (Evaluator.within (n + 1)).assign c ⟨p, .array targets⟩ v =
      Exec.located p ((Evaluator.within n).destructure c targets v) := rfl
  simp only [hrun, hstep]
  refine ⟨fun elements helements hpos hle => ?_, fun hnone => ?_, fun elements helements hlength => ?_⟩
  · have hcomposed : Composed .whole .full (fun ev => ev.assignEach c (targets.zip elements)) fun _ => True :=
      .assignEach (fun _ _ => trivial) c _
    have heach (ev : Evaluator) := Exec.run_located_congr (p := p)
      (run_destructure_of_le ev c helements hpos hle)
    obtain ⟨trace, hends, htraced⟩ := ends_assignEach n c (targets.zip elements) s
    rw [heach, (settles_assignEach n c _).located_eq]
    refine ⟨⟨trace, hends, (htraced.located hcomposed).congr heach⟩, ?_⟩
    intro names s' hnames hnodup hok
    rw [hok] at hends
    exact hends.assigns.lookup_eq hnames hnodup
  · have hfail (ev : Evaluator) := Exec.run_located_of_error (p := p)
      (run_destructure_of_elements?_eq_none ev c targets hnone)
    exact ⟨hfail _, .of_run_eq hfail⟩
  · have hfail (ev : Evaluator) := Exec.run_located_of_error (p := p)
      (run_destructure_of_mismatch ev c helements hlength)
    exact ⟨hfail _, .of_run_eq hfail⟩

/-- Two variables that hold the elements of an array, in the other order. -/
def swappedState : State :=
  { plainState with
    scopes := #[
      { bindings := .ofList [("x", ⟨.variable, some (.text "b")⟩), ("y", ⟨.variable, some (.text "a")⟩)] }]
    heap := { plainState.heap with arrays := #[#[.text "a", .text "b"]] } }

/-- The pattern `[x, y]`. -/
def swappedTargets : List Expr := [⟨⟨1, 2⟩, .variable "x"⟩, ⟨⟨1, 5⟩, .variable "y"⟩]

/-- Each of the two variables takes its element.  A pattern with three targets is refused. -/
theorem destructuring_assigns_snapshot_swapped :
    (∃ s', ((Evaluator.within 2).assign Interpreter.root ⟨⟨1, 1⟩, .array swappedTargets⟩
          (.array ⟨0⟩)).run swappedState = .ok () s' ∧
        (Exec.lookup Interpreter.root "x").run s' = .ok (.text "a") s' ∧
        (Exec.lookup Interpreter.root "y").run s' = .ok (.text "b") s') ∧
      ((Evaluator.within 2).assign Interpreter.root
          ⟨⟨1, 1⟩, .array (⟨⟨1, 2⟩, .variable "z"⟩ :: swappedTargets)⟩ (.array ⟨0⟩)).run swappedState =
        .error (.fault ⟨.destructuringMismatch 3 2, some ⟨1, 1⟩⟩) swappedState := by
  have hgives : ((Evaluator.within 2).assign Interpreter.root ⟨⟨1, 1⟩, .array swappedTargets⟩
      (.array ⟨0⟩)).gives swappedState (fun _ _ => True) = true := by decide +kernel
  obtain ⟨_, s', hrun, -⟩ := Exec.exists_run_of_gives hgives
  have hseen := ((destructuring_assigns_snapshot 1 Interpreter.root ⟨1, 1⟩ swappedTargets (.array ⟨0⟩)
    swappedState).1 _ rfl (by decide) (by decide)).2 ["x", "y"] s' rfl (by decide) hrun
  refine ⟨⟨s', hrun, hseen ("x", .text "a") (.head _), hseen ("y", .text "b") (.tail _ (.head _))⟩, ?_⟩
  exact ((destructuring_assigns_snapshot 1 Interpreter.root ⟨1, 1⟩ (⟨⟨1, 2⟩, .variable "z"⟩ :: swappedTargets)
    (.array ⟨0⟩) swappedState).2.2 _ rfl (by decide)).1

end ScriptLang
