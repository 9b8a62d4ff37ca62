/-
When a call is refused for the number of its arguments.

The message of the fault states a range: at least as many arguments as there are required parameters, and
at most as many as there are parameters.  Too many arguments are noticed at once.  Too few are noticed when
it is the turn of a required parameter and no argument is left, after the defaults of the parameters before
it were evaluated.  So the range is right if the required parameters come first.  If an optional one stands
before a required one, then a number of arguments in the range may be refused, and defaults may be
evaluated before the refusal (`arity_is_checked_by_position`).
-/
import ScriptLang.Proofs.Eval.Ending
import ScriptLang.Proofs.Eval.Tracing
import ScriptLang.Proofs.Scope.Constants

namespace ScriptLang

/-! ## Parameters -/

/-- Whether a caller has to give an argument. -/
def Parameter.isRequired (p : Parameter) : Bool := !p.optional && p.default.isNone

namespace FunctionDecl

variable (f : FunctionDecl)

lemma required_eq : f.required = f.parameters.countP Parameter.isRequired :=
  (List.countP_eq_length_filter ..).symm

/-- The number of arguments lies in the range that the message states. -/
def Accepts (got : Nat) : Prop := f.required ≤ got ∧ got ≤ f.parameters.length

instance (got : Nat) : Decidable (f.Accepts got) := inferInstanceAs (Decidable (_ ∧ _))

/-- Nothing that a caller has to give stands after something that may be left out. -/
def RequiredFirst : Prop := f.parameters.Pairwise fun p q => q.isRequired = true → p.isRequired = true

instance : Decidable f.RequiredFirst := inferInstanceAs (Decidable (List.Pairwise _ _))

end FunctionDecl

/-! ## One parameter -/

namespace Evaluator

variable (self : Evaluator) (c : Context) (decl : FunctionDecl) (got : Nat) (p : Parameter)

/-- The value of a parameter: the next argument, or what stands for a missing one. -/
def valueFor : List Value → Exec Value
  | arg :: _ => return arg
  | [] =>
    match p.default with
    | some e => self.evaluate c e
    | none => if p.optional then Exec.nullValue else Exec.fail (decl.wrongArity got)

/-- Binds one parameter. -/
def bindOne (args : List Value) : Exec Unit := do
  let value ← self.valueFor c decl got p args
  Exec.declare c p.name .parameter value

lemma bindEach_cons (ps : List Parameter) (args : List Value) :
    self.bindEach c decl got (p :: ps) args =
      self.bindOne c decl got p args >>= fun _ => self.bindEach c decl got ps args.tail := by
  cases args with
  | cons arg args => simp [bindEach, bindOne, valueFor]
  | nil =>
    simp only [bindEach, bindOne, valueFor, List.tail_nil]
    cases p.default with
    | some e => simp
    | none => cases p.optional <;> simp

lemma bindEach_append (before after : List Parameter) (args : List Value) :
    self.bindEach c decl got (before ++ after) args =
      self.bindEach c decl got before args >>= fun _ =>
        self.bindEach c decl got after (args.drop before.length) := by
  induction before generalizing args with
  | nil => cases args <;> simp [bindEach]
  | cons p before ih => simp [bindEach_cons, ih, List.drop_tail]

end Evaluator

section One

variable {n : Nat} {c : Context} {decl : FunctionDecl} {got : Nat} {p : Parameter} {args : List Value}
  {s s' : State}

/-- How a call is refused: with a fault that has no place yet. -/
def FunctionDecl.refusal (decl : FunctionDecl) (got : Nat) : Halt := .fault ⟨decl.wrongArity got, none⟩

lemma run_declare_ne_refusal {name : String} {kind : BindingKind} {v : Value} :
    (Exec.declare c name kind v).run s ≠ .error (decl.refusal got) s' := by
  rw [Exec.run_declare]
  split
  · rintro ⟨⟩
  · rintro ⟨⟩

/-- Defaults locate their faults, so the refusal of a call is none of them. -/
lemma run_evaluate_ne_refusal {e : Expr} :
    ((Evaluator.within n).evaluate c e).run s ≠ .error (decl.refusal got) s' := by
  intro hr
  rcases Evaluator.settles_evaluate n c e s _ s' hr with hcause | hplace
  · cases hcause
  · cases hplace

/-- The value of a required parameter is an argument, or the call is refused. -/
lemma run_valueFor_required (ev : Evaluator) (hp : p.isRequired = true) :
    (ev.valueFor c decl got p []).run s = .error (decl.refusal got) s := by
  simp only [Parameter.isRequired, Bool.and_eq_true, Bool.not_eq_true', Option.isNone_iff_eq_none] at hp
  simp only [Evaluator.valueFor, hp.1, hp.2]
  rfl

lemma run_valueFor_eq_refusal
    (hr : ((Evaluator.within n).valueFor c decl got p args).run s = .error (decl.refusal got) s') :
    args = [] ∧ p.isRequired = true ∧ s' = s := by
  cases args with
  | cons arg args => cases hr
  | nil =>
    simp only [Evaluator.valueFor] at hr
    cases hd : p.default with
    | some e =>
      rw [hd] at hr
      exact absurd hr run_evaluate_ne_refusal
    | none =>
      rw [hd] at hr
      cases ho : p.optional with
      | true =>
        rw [ho] at hr
        cases hr
      | false =>
        rw [ho] at hr
        cases hr
        exact ⟨rfl, by simp [Parameter.isRequired, hd, ho], rfl⟩

/-- A parameter makes a call refused exactly if it is required and no argument is left. -/
lemma run_bindOne_eq_refusal :
    ((Evaluator.within n).bindOne c decl got p args).run s = .error (decl.refusal got) s' ↔
      args = [] ∧ p.isRequired = true ∧ s' = s := by
  constructor
  · intro hr
    cases hv : ((Evaluator.within n).valueFor c decl got p args).run s with
    | ok v s₁ =>
      rw [Evaluator.bindOne, run_bind_ok hv] at hr
      exact absurd hr run_declare_ne_refusal
    | error e s₁ =>
      rw [Evaluator.bindOne, run_bind_error hv] at hr
      cases hr
      exact run_valueFor_eq_refusal hv
  · rintro ⟨rfl, hp, rfl⟩
    exact run_bind_error (run_valueFor_required _ hp)

lemma not_isRequired_of_bindOne (hr : ((Evaluator.within n).bindOne c decl got p []).run s = .ok () s') :
    p.isRequired = false := by
  refine Bool.eq_false_of_not_eq_true fun hp => ?_
  cases hr.symm.trans (run_bindOne_eq_refusal.mpr ⟨rfl, hp, rfl⟩)

/-- What is evaluated to bind a parameter: its default, if no argument is left. -/
lemma traced_bindOne (n : Nat) (c : Context) (decl : FunctionDecl) (got : Nat) (p : Parameter)
    (args : List Value) (s : State) :
    ∃ trace, Traced n (fun ev => ev.bindOne c decl got p args) s trace ∧
      trace.map (·.1) = if args.isEmpty then p.default.toList.map (.evaluate c ·) else [] := by
  cases args with
  | cons arg args => exact ⟨[], .silent _ s, rfl⟩
  | nil =>
    simp only [Evaluator.bindOne, Evaluator.valueFor]
    cases p.default with
    | none =>
      dsimp only
      exact ⟨[], .silent _ s, rfl⟩
    | some e =>
      refine ⟨[(.evaluate c e, s)], ?_, rfl⟩
      cases hr : ((Evaluator.within n).evaluate c e).run s with
      | ok v s₁ => exact .perform_bind hr (.silent _ s₁)
      | error e s₁ => exact .perform_bind_error hr

end One

/-! ## All parameters -/

section All

variable {n : Nat} {c : Context} {decl : FunctionDecl} {got : Nat} {ps : List Parameter}
  {args : List Value} {s s' : State}

/-- A required parameter for which no argument is left ends it all, without a question. -/
lemma run_bindEach_required (ev : Evaluator) {p : Parameter} (hp : p.isRequired = true) :
    (ev.bindEach c decl got (p :: ps) []).run s = .error (decl.refusal got) s := by
  rw [Evaluator.bindEach_cons]
  exact run_bind_error (run_bind_error (run_valueFor_required ev hp))

/-- A call is refused at the first required parameter for which no argument is left, once the parameters
before it are bound. -/
lemma run_bindEach_eq_refusal :
    ((Evaluator.within n).bindEach c decl got ps args).run s = .error (decl.refusal got) s' ↔
      ∃ before p after, ps = before ++ p :: after ∧ args.length ≤ before.length ∧
        p.isRequired = true ∧ ((Evaluator.within n).bindEach c decl got before args).run s = .ok () s' := by
  constructor
  · intro hr
    -- The parameters before the refusal grow by one with each that is bound.
    induction ps generalizing args s with
    | nil => cases args <;> cases hr
    | cons p ps ih =>
      rw [Evaluator.bindEach_cons] at hr
      cases hp : ((Evaluator.within n).bindOne c decl got p args).run s with
      | error e s₁ =>
        rw [run_bind_error hp] at hr
        cases hr
        obtain ⟨rfl, hrequired, rfl⟩ := run_bindOne_eq_refusal.mp hp
        exact ⟨[], p, ps, rfl, Nat.le_refl 0, hrequired, rfl⟩
      | ok _ s₁ =>
        rw [run_bind_ok hp] at hr
        obtain ⟨before, p', after, rfl, hle, hrequired, hbound⟩ := ih hr
        refine ⟨p :: before, p', after, rfl, ?_, hrequired, ?_⟩
        · simp only [List.length_tail, List.length_cons] at hle ⊢
          omega
        · rw [Evaluator.bindEach_cons, run_bind_ok hp]
          exact hbound
  · rintro ⟨before, p, after, rfl, hle, hrequired, hbound⟩
    have hnone : args.drop before.length = [] := List.drop_eq_nil_of_le hle
    rw [Evaluator.bindEach_append, run_bind_ok hbound, hnone]
    exact run_bindEach_required _ hrequired

/-- Only parameters that are not required can do without an argument. -/
lemma not_isRequired_of_bindEach (hr : ((Evaluator.within n).bindEach c decl got ps args).run s = .ok () s') :
    ∀ p ∈ ps.drop args.length, p.isRequired = false := by
  induction ps generalizing args s with
  | nil => simp
  | cons p ps ih =>
    rw [Evaluator.bindEach_cons] at hr
    obtain ⟨_, s₁, hp, hrest⟩ := run_bind_eq_ok.mp hr
    have hps := ih hrest
    cases args with
    | cons arg args => simpa using hps
    | nil =>
      intro q hq
      rcases List.mem_cons.mp hq with rfl | hq
      · exact not_isRequired_of_bindOne hp
      · exact hps q hq

/-- To bind parameters, the defaults of those without an argument are evaluated in order. -/
lemma traced_bindEach (hr : ((Evaluator.within n).bindEach c decl got ps args).run s = .ok () s') :
    ∃ trace, Traced n (fun ev => ev.bindEach c decl got ps args) s trace ∧
      trace.map (·.1) = ((ps.drop args.length).filterMap (·.default)).map (.evaluate c ·) := by
  induction ps generalizing args s with
  | nil => exact ⟨[], by cases args <;> exact .silent _ s, by simp⟩
  | cons p ps ih =>
    rw [Evaluator.bindEach_cons] at hr
    obtain ⟨_, s₁, hp, hrest⟩ := run_bind_eq_ok.mp hr
    obtain ⟨first, hfirst, hdefault⟩ := traced_bindOne n c decl got p args s
    obtain ⟨rest, htraced, hdefaults⟩ := ih hrest
    have hone : Composed .whole .full (fun ev => ev.bindOne c decl got p args) fun _ => True := by
      simpa [Evaluator.bindEach_cons, Evaluator.bindEach] using
        Composed.bindEach (W := .whole) (L := .full) (fun _ _ => trivial) c decl got [p] args
    refine ⟨first ++ rest, ?_, ?_⟩
    · simp only [Evaluator.bindEach_cons]
      exact .bind hone hfirst hp htraced
    · rw [List.map_append, hdefault, hdefaults]
      cases args with
      | cons arg args => simp
      | nil => cases hd : p.default <;> simp [hd]

/-- Arguments for all parameters can be bound, unless a name cannot be declared. -/
lemma run_bindEach_of_length_eq (hlength : ps.length = args.length)
    (hnaming : ∀ p ∈ ps, s.services.naming.refusal? p.name = none) :
    ∃ s', ((Evaluator.within n).bindEach c decl got ps args).run s = .ok () s' := by
  induction ps generalizing args s with
  | nil => exact ⟨s, by cases args <;> rfl⟩
  | cons p ps ih =>
    cases args with
    | nil => cases hlength
    | cons arg args =>
      have hp := Exec.run_declare c s p.name .parameter arg
      rw [hnaming p List.mem_cons_self] at hp
      obtain ⟨s', hrest⟩ := ih (s := s.withScope c.scope ((s.scopeAt c.scope).declare
        (s.services.naming.keep p.name) .parameter arg)) (Nat.succ.inj hlength)
        fun q hq => hnaming q (List.mem_cons_of_mem p hq)
      exact ⟨s', (run_bind_ok hp).trans hrest⟩

end All

/-! ## Counting -/

namespace FunctionDecl

variable {f : FunctionDecl} {before after : List Parameter} {p : Parameter} {got : Nat}

lemma required_of_split (hsplit : f.parameters = before ++ p :: after) (hp : p.isRequired = true) :
    f.required = before.countP Parameter.isRequired + after.countP Parameter.isRequired + 1 := by
  rw [required_eq, hsplit, List.countP_append, List.countP_cons_of_pos hp]
  omega

/-- If the range is kept, but no argument is left for a required parameter, then an optional one has got
an argument. -/
lemma exists_not_isRequired (hsplit : f.parameters = before ++ p :: after) (hp : p.isRequired = true)
    (hleft : got ≤ before.length) (hrange : f.required ≤ got) :
    ∃ q ∈ before.take got, q.isRequired = false := by
  by_contra hnone
  have hall : (before.take got).countP Parameter.isRequired = (before.take got).length := by
    refine List.countP_eq_length.mpr fun q hq => ?_
    by_contra hq'
    exact hnone ⟨q, hq, Bool.eq_false_of_not_eq_true hq'⟩
  have hle : (before.take got).countP Parameter.isRequired ≤ before.countP Parameter.isRequired :=
    (List.take_sublist got before).countP_le
  rw [List.length_take_of_le hleft] at hall
  rw [required_of_split hsplit hp] at hrange
  omega

/-- Parameters that may be left out come after all that stands before a required one. -/
lemma RequiredFirst.isRequired_of_mem (h : f.RequiredFirst) (hsplit : f.parameters = before ++ p :: after)
    (hp : p.isRequired = true) : ∀ q ∈ before, q.isRequired = true := by
  intro q hq
  rw [RequiredFirst, hsplit, List.pairwise_append] at h
  exact h.2.2 q hq p List.mem_cons_self hp

/-- If there are too few arguments, then the first parameter without one is required. -/
lemma RequiredFirst.exists_split (h : f.RequiredFirst) (hfew : got < f.required) :
    ∃ before p after, f.parameters = before ++ p :: after ∧ before.length = got ∧
      p.isRequired = true := by
  have htotal : got < f.parameters.length := by
    have hle := f.parameters.countP_le_length (p := Parameter.isRequired)
    rw [← f.required_eq] at hle
    omega
  have hsplit : f.parameters = f.parameters.take got ++ f.parameters[got] :: f.parameters.drop (got + 1) := by
    rw [← List.drop_eq_getElem_cons htotal, List.take_append_drop]
  refine ⟨_, _, _, hsplit, List.length_take_of_le htotal.le, ?_⟩
  by_contra hp
  -- Otherwise all the required parameters are among the first ones.
  have hafter : (f.parameters[got] :: f.parameters.drop (got + 1)).countP Parameter.isRequired = 0 := by
    rw [RequiredFirst, hsplit, List.pairwise_append, List.pairwise_cons] at h
    refine List.countP_eq_zero.mpr fun q hq hq' => ?_
    rcases List.mem_cons.mp hq with rfl | hq
    · exact hp hq'
    · exact hp (h.2.1.1 q hq hq')
  have hbefore := (f.parameters.take got).countP_le_length (p := Parameter.isRequired)
  rw [List.length_take_of_le htotal.le] at hbefore
  rw [f.required_eq, hsplit, List.countP_append, hafter] at hfew
  omega

end FunctionDecl

/-! ## Calls -/

section Calls

variable (n : Nat) (c : Context) (decl : FunctionDecl) (args : List Value) (s : State)

/-- The call is refused for the number of its arguments, in the state `s'`. -/
def Refused (s' : State) : Prop :=
  ((Evaluator.within n).bindParameters c decl args).run s = .error (decl.refusal args.length) s'

/-- The parameters `before` are bound, and no argument is left for the required parameter after them. -/
structure ComesShort (before : List Parameter) (s' : State) : Prop where
  split : ∃ p after, decl.parameters = before ++ p :: after ∧ p.isRequired = true
  left : args.length ≤ before.length
  bound : ((Evaluator.within n).bindEach c decl args.length before args).run s = .ok () s'

variable {n c decl args s} {before : List Parameter} {s' : State}

lemma bindParameters_of_lt (ev : Evaluator) (h : decl.parameters.length < args.length) :
    (ev.bindParameters c decl args).run s = .error (decl.refusal args.length) s := by
  simp only [Evaluator.bindParameters, if_pos h]
  exact run_bind_error rfl

lemma bindParameters_of_le (ev : Evaluator) (h : args.length ≤ decl.parameters.length) :
    ev.bindParameters c decl args = ev.bindEach c decl args.length decl.parameters args := by
  simp [Evaluator.bindParameters, Nat.not_lt.mpr h]

lemma ComesShort.le (h : ComesShort n c decl args s before s') :
    args.length ≤ decl.parameters.length := by
  obtain ⟨p, after, hsplit, -⟩ := h.split
  rw [hsplit, List.length_append]
  exact h.left.trans (Nat.le_add_right _ _)

lemma refused_iff : Refused n c decl args s s' ↔
    decl.parameters.length < args.length ∧ s' = s ∨ ∃ before, ComesShort n c decl args s before s' := by
  unfold Refused
  rcases Nat.lt_or_ge decl.parameters.length args.length with hlt | hle
  · rw [bindParameters_of_lt _ hlt]
    constructor
    · rintro ⟨⟩
      exact .inl ⟨hlt, rfl⟩
    · rintro (⟨-, rfl⟩ | ⟨before, hshort⟩)
      · rfl
      · exact absurd hshort.le (Nat.not_le.mpr hlt)
  · rw [bindParameters_of_le _ hle, run_bindEach_eq_refusal]
    constructor
    · rintro ⟨before, p, after, hsplit, hleft, hp, hbound⟩
      exact .inr ⟨before, ⟨p, after, hsplit, hp⟩, hleft, hbound⟩
    · rintro (⟨hlt, -⟩ | ⟨before, ⟨p, after, hsplit, hp⟩, hleft, hbound⟩)
      · exact absurd hle (Nat.not_le.mpr hlt)
      · exact ⟨before, p, after, hsplit, hleft, hp, hbound⟩

/-- Before a call comes short, the defaults of the bound parameters without an argument are evaluated. -/
lemma ComesShort.traced (h : ComesShort n c decl args s before s') :
    ∃ trace, Traced n (fun ev => ev.bindParameters c decl args) s trace ∧
      trace.map (·.1) = ((before.drop args.length).filterMap (·.default)).map (.evaluate c ·) := by
  obtain ⟨p, after, hsplit, hp⟩ := h.split
  obtain ⟨trace, htraced, hdefaults⟩ := traced_bindEach h.bound
  have hnone : args.drop before.length = [] := List.drop_eq_nil_of_le h.left
  have hend : Traced n (fun ev => ev.bindEach c decl args.length (p :: after) []) s' [] :=
    (Traced.silent (Exec.fail (decl.wrongArity args.length)) s').congr fun ev =>
      run_bindEach_required ev hp
  have hboth : Traced n (fun ev => ev.bindEach c decl args.length before args >>= fun _ =>
      ev.bindEach c decl args.length (p :: after) []) s (trace ++ []) :=
    .bind (.bindEach (L := .full) (fun _ _ => trivial) c decl _ before args) htraced h.bound hend
  rw [List.append_nil] at hboth
  refine ⟨trace, hboth.congr fun ev => ?_, hdefaults⟩
  rw [bindParameters_of_le ev h.le, hsplit, Evaluator.bindEach_append, hnone]

/-- With required parameters first, what comes short has an argument for each of the parameters before. -/
lemma ComesShort.length_eq (h : ComesShort n c decl args s before s') (hfirst : decl.RequiredFirst) :
    before.length = args.length := by
  obtain ⟨p, after, hsplit, hp⟩ := h.split
  -- A bound parameter without an argument is optional, but all before a required one are required.
  have hnone : before.drop args.length = [] := by
    refine List.eq_nil_iff_forall_not_mem.mpr fun q hq => ?_
    have hrequired := hfirst.isRequired_of_mem hsplit hp q (List.mem_of_mem_drop hq)
    rw [not_isRequired_of_bindEach h.bound q hq] at hrequired
    cases hrequired
  exact Nat.le_antisymm (List.drop_eq_nil_iff.mp hnone) h.left

/-- Then there are too few arguments, and no default was evaluated. -/
lemma ComesShort.few (h : ComesShort n c decl args s before s') (hfirst : decl.RequiredFirst) :
    args.length < decl.required ∧ Traced n (fun ev => ev.bindParameters c decl args) s [] := by
  have hlength := h.length_eq hfirst
  obtain ⟨p, after, hsplit, hp⟩ := h.split
  constructor
  · have hall : before.countP Parameter.isRequired = before.length :=
      List.countP_eq_length.mpr (hfirst.isRequired_of_mem hsplit hp)
    rw [FunctionDecl.required_of_split hsplit hp]
    omega
  · obtain ⟨trace, htraced, hdefaults⟩ := h.traced
    rw [← hlength, List.drop_length] at hdefaults
    rwa [List.map_eq_nil_iff.mp hdefaults] at htraced

/-- With too few arguments and required parameters first, a call comes short. -/
lemma exists_comesShort (hfirst : decl.RequiredFirst)
    (hnaming : ∀ p ∈ decl.parameters, s.services.naming.refusal? p.name = none)
    (hfew : args.length < decl.required) : ∃ before s', ComesShort n c decl args s before s' := by
  obtain ⟨before, p, after, hsplit, hlength, hp⟩ := hfirst.exists_split hfew
  have hok : ∃ s', ((Evaluator.within n).bindEach c decl args.length before args).run s = .ok () s' :=
    run_bindEach_of_length_eq hlength fun q hq => hnaming q (by simp [hsplit, hq])
  obtain ⟨s', hbound⟩ := hok
  exact ⟨before, s', ⟨p, after, hsplit, hp⟩, hlength.ge, hbound⟩

/-- A call that goes through has an argument for each required parameter. -/
lemma required_le_of_ok (h : ((Evaluator.within n).bindParameters c decl args).run s = .ok () s') :
    decl.required ≤ args.length := by
  rcases Nat.lt_or_ge decl.parameters.length args.length with hlt | hle
  · rw [bindParameters_of_lt _ hlt] at h
    cases h
  · rw [bindParameters_of_le _ hle] at h
    have hnone : (decl.parameters.drop args.length).countP Parameter.isRequired = 0 :=
      List.countP_eq_zero.mpr fun q hq hq' => by
        rw [not_isRequired_of_bindEach h q hq] at hq'
        cases hq'
    calc decl.required
        = (decl.parameters.take args.length).countP Parameter.isRequired := by
          rw [decl.required_eq]
          conv_lhs => rw [← List.take_append_drop args.length decl.parameters]
          rw [List.countP_append, hnone, Nat.add_zero]
      _ ≤ (decl.parameters.take args.length).length := List.countP_le_length
      _ = args.length := List.length_take_of_le hle

end Calls

/-- **The number of arguments is checked by position.**  A call is refused for the number of its arguments
exactly if there are more of them than parameters, and then nothing has changed, or if it comes short: the
parameters before a required one are bound and no argument is left for it.  Too many arguments are refused
before any default is evaluated, and a call that comes short is refused after the defaults of the bound
parameters without an argument were evaluated, and no others.  With fewer arguments than the message asks
for, no call goes through.  If a call is refused although the range of the message is kept, then one of its
arguments went to an optional parameter before a required one.  If the required parameters come first, and
their names can be declared, then a call is refused exactly if the range is left, and before any default is
evaluated. -/
theorem arity_is_checked_by_position (n : Nat) (c : Context) (decl : FunctionDecl) (args : List Value)
    (s : State) :
    (∀ s', Refused n c decl args s s' ↔
      decl.parameters.length < args.length ∧ s' = s ∨
        ∃ before, ComesShort n c decl args s before s') ∧
    (decl.parameters.length < args.length →
      Traced n (fun ev => ev.bindParameters c decl args) s []) ∧
    (∀ before s', ComesShort n c decl args s before s' →
      (∃ trace, Traced n (fun ev => ev.bindParameters c decl args) s trace ∧
        trace.map (·.1) = ((before.drop args.length).filterMap (·.default)).map (.evaluate c ·)) ∧
      (decl.Accepts args.length → ∃ q ∈ before.take args.length, q.isRequired = false)) ∧
    (args.length < decl.required → ∀ s',
      ((Evaluator.within n).bindParameters c decl args).run s ≠ .ok () s') ∧
    (decl.RequiredFirst → (∀ p ∈ decl.parameters, s.services.naming.refusal? p.name = none) →
      ((∃ s', Refused n c decl args s s') ↔ ¬decl.Accepts args.length) ∧
      ((∃ s', Refused n c decl args s s') →
        Traced n (fun ev => ev.bindParameters c decl args) s [])) := by
  have hmany : decl.parameters.length < args.length →
      Traced n (fun ev => ev.bindParameters c decl args) s [] := fun hlt =>
    (Traced.silent (Exec.fail (decl.wrongArity args.length)) s).congr fun ev =>
      bindParameters_of_lt ev hlt
  refine ⟨fun s' => refused_iff, hmany, fun before s' hshort => ⟨hshort.traced, fun haccepts => ?_⟩,
    fun hfew s' hr => Nat.not_le.mpr hfew (required_le_of_ok hr), fun hfirst hnaming => ⟨⟨?_, ?_⟩, ?_⟩⟩
  · obtain ⟨p, after, hsplit, hp⟩ := hshort.split
    exact FunctionDecl.exists_not_isRequired hsplit hp hshort.left haccepts.1
  · rintro ⟨s', hrefused⟩ haccepts
    rcases refused_iff.mp hrefused with ⟨hlt, -⟩ | ⟨before, hshort⟩
    · exact Nat.not_lt.mpr haccepts.2 hlt
    · exact Nat.not_lt.mpr haccepts.1 (hshort.few hfirst).1
  · intro hnot
    rcases Nat.lt_or_ge args.length decl.required with hfew | henough
    · obtain ⟨before, s', hshort⟩ := exists_comesShort hfirst hnaming hfew
      exact ⟨s', refused_iff.mpr (.inr ⟨before, hshort⟩)⟩
    · have hlt : decl.parameters.length < args.length := Nat.not_le.mp fun hle => hnot ⟨henough, hle⟩
      exact ⟨s, refused_iff.mpr (.inl ⟨hlt, rfl⟩)⟩
  · rintro ⟨s', hrefused⟩
    rcases refused_iff.mp hrefused with ⟨hlt, -⟩ | ⟨before, hshort⟩
    · exact hmany hlt
    · exact (hshort.few hfirst).2

/-- The call `print("d")`. -/
def printCall : Expr := ⟨⟨1, 21⟩, .call ⟨⟨1, 16⟩, .variable "print"⟩ [⟨⟨1, 22⟩, .literal (.text "d")⟩]⟩

/-- The functions `f(a = print("d"), b)` and `g(b, a = print("d"))`. -/
def defaultFirst : FunctionDecl := ⟨some "f", [⟨"a", false, some printCall⟩, .ofName "b"], [], ⟨1, 1⟩⟩

def defaultLast : FunctionDecl := ⟨some "g", [.ofName "b", ⟨"a", false, some printCall⟩], [], ⟨1, 1⟩⟩

/-- The first of the two parameters of `f` is bound, and the second one is missing. -/
lemma comesShort_defaultFirst {args : List Value} {s' : State} (hlength : args.length ≤ 1)
    (hbound : ((Evaluator.within 9).bindEach Interpreter.root defaultFirst args.length
      [⟨"a", false, some printCall⟩] args).run printState = .ok () s') :
    ComesShort 9 Interpreter.root defaultFirst args printState [⟨"a", false, some printCall⟩] s' :=
  ⟨⟨.ofName "b", [], rfl, rfl⟩, hlength, hbound⟩

/-- Without arguments `f` is refused after its default was evaluated, and with one argument, which the
message allows, it is refused as well. -/
theorem default_before_required_breaks_arity :
    (¬defaultFirst.Accepts 0 ∧
      ∃ s', Refused 9 Interpreter.root defaultFirst [] printState s' ∧ s'.output = #["d"]) ∧
    defaultFirst.Accepts 1 ∧
      ∃ s', Refused 9 Interpreter.root defaultFirst [.text "x"] printState s' := by
  refine ⟨⟨by decide, ?_⟩, by decide, ?_⟩
  · obtain ⟨_, s', hbound, houtput⟩ := Exec.exists_run_of_gives (m := (Evaluator.within 9).bindEach
      Interpreter.root defaultFirst 0 [⟨"a", false, some printCall⟩] []) (s := printState)
      (P := fun _ s' => s'.output = #["d"]) (by decide +kernel)
    exact ⟨s', refused_iff.mpr (.inr ⟨_, comesShort_defaultFirst (Nat.zero_le 1) hbound⟩), houtput⟩
  · exact ⟨_, refused_iff.mpr (.inr ⟨_, comesShort_defaultFirst (Nat.le_refl 1) rfl⟩)⟩

/-- With the required parameter first, the call is refused before the default is evaluated. -/
theorem arity_is_checked_by_position_default_last :
    ¬defaultLast.Accepts 0 ∧ (∃ s', Refused 9 Interpreter.root defaultLast [] printState s') ∧
      Traced 9 (fun ev => ev.bindParameters Interpreter.root defaultLast []) printState [] := by
  have hnot : ¬defaultLast.Accepts 0 := by decide
  have hclaim := (arity_is_checked_by_position 9 Interpreter.root defaultLast [] printState).2.2.2.2
    (by decide) fun _ _ => rfl
  have hrefused := hclaim.1.mpr hnot
  exact ⟨hnot, hrefused, hclaim.2 hrefused⟩

end ScriptLang
