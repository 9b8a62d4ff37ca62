/-
From the inside of a call to its outside.

A piece of a script hands on how a piece inside of it ended, or takes it up (`Piece.inner`).  Going
outward along the trail of a part of a run, the way in which a piece ended is either caught by an
enclosing piece (`Caught`), or it reaches the outermost piece of the call (`Uncaught`).  What a call
does with its outermost list is said in `Task.outermost`.
-/
import ScriptLang.Proofs.Eval.Nesting

namespace ScriptLang

variable {α : Type} {n k : Nat} {s s' s₁ : State} {f : Flow} {p : Piece}

/-! ## One level outward -/

namespace Piece

/-- Gives a computation of a piece its place. -/
def marked : Piece → Exec Flow → Exec Flow
  | .statement _ st => Exec.located st.place
  | .list _ _ => id

/-- How a piece ends after a piece of the given kind inside of it ended with `f` in the state `s₁`: it
ends there, or it goes on with what is left to do. -/
def EndsAfter (outer : Piece) (k : Nat) (s : State) (kind : BlockFlow) (f : Flow) (s₁ : State) : Prop :=
  match outer.answer kind f with
  | .exit g => ((Evaluator.within (k + 1)).flow outer).run s = .ok g s₁
  | .proceed => ∃ r, outer.Rest f r ∧
      ((Evaluator.within (k + 1)).flow outer).run s = (outer.marked (r (Evaluator.within k))).run s₁

/-- What is known of a piece `p` inside of `outer`. -/
structure Inner (outer : Piece) (k : Nat) (s : State) (kind : BlockFlow) (p : Piece) (s' : State) :
    Prop where
  encloses : Encloses kind outer p
  ends : ∀ f s₁, ((Evaluator.within k).flow p).run s' = .ok f s₁ → f ≠ .next →
    outer.EndsAfter k s kind f s₁
  below : outer.context.Below s.scopes.size → p.context.Below s'.scopes.size
  sees : outer.context.Below s.scopes.size → ∀ label, s'.sees p.context label = true →
    s.sees outer.context label = true ∨ outer.declares label = true

/-- Every piece for which a piece asks is inside of it. -/
theorem inner {outer : Piece}
    (ha : (Evaluator.within k).Asks (fun ev => ev.step outer.task) s p.task s') :
    ∃ kind, outer.Inner k s kind p s' := by
  have hkeeps := Evaluator.within_keeps k
  cases outer with
  | statement c st =>
    have ha' : (Evaluator.within k).Asks (fun ev => ev.executeForm c st.form) s p.task s' :=
      Evaluator.asks_located ha
    cases hform : st.form.isSimple with
    | true =>
      have hsimple : Composed .whole .values (fun ev => ev.executeForm c st.form) fun _ => True :=
        .executeSimple Licence.values_evaluates c hform fun _ _ => trivial
      exact absurd ha' (Flowing.not_asks_value hsimple (hkeeps _) (Nat.zero_le _))
    | false =>
      have hflowing := Flowing.executeForm (c := c) hform
      obtain ⟨kind, hhandles⟩ := hflowing.handles (hkeeps _) ha'
      refine ⟨kind, hhandles.encloses, ?_, ?_, ?_⟩
      · intro f s₁ hr hne
        unfold EndsAfter
        split
        · next g hexit => exact Exec.run_located_of_ok (hhandles.exits f g s₁ hr hexit)
        · next hgo =>
          obtain ⟨r, hrest, hrun⟩ := hhandles.proceeds f s₁ hr hne hgo
          exact ⟨r, hrest, Exec.run_located_congr hrun⟩
      · exact fun hc => (hflowing.sees_inside hc ha').1
      · exact fun hc => (hflowing.sees_inside hc ha').2
  | list c body =>
    rcases Evaluator.asks_bind ha with ha | ⟨u, s₂, hr, ha⟩
    · exact absurd ha (Evaluator.not_asks_const _)
    · -- The names and labels of the list are entered, and its statements run.
      have hflowing : Flowing (.list c body) c fun ev => ev.runFrom c body ev.bound body :=
        .bounded fun bound => .runFrom c body bound fun _ h => h
      have hlabelled := Labelled.hoistAll c body s
      rw [Exec.after_of_ok hr] at hlabelled
      obtain ⟨kind, hhandles⟩ := hflowing.handles (hkeeps _) ha
      refine ⟨kind, hhandles.encloses, ?_, ?_, ?_⟩
      · intro f s₁ hflow hne
        have hrun : ((Evaluator.within (k + 1)).flow (.list c body)).run s =
            ((Evaluator.within k).runFrom c body (Evaluator.within k).bound body).run s₂ :=
          run_bind_ok hr
        unfold EndsAfter
        split
        · next g hexit => exact hrun.trans (hhandles.exits f g s₁ hflow hexit)
        · next hgo =>
          obtain ⟨r, hrest, hgoes⟩ := hhandles.proceeds f s₁ hflow hne hgo
          exact ⟨r, hrest, hrun.trans hgoes⟩
      · exact fun hc => (hflowing.sees_inside (hc.mono hlabelled.size_le) ha).1
      · intro hc label hsees
        rcases (hflowing.sees_inside (hc.mono hlabelled.size_le) ha).2 label hsees with hsees | hd
        · rcases hlabelled.sees hc hsees with hsees | ⟨-, hlabel⟩
          · exact .inl hsees
          · exact .inr (Bool.or_eq_true_iff.mpr (.inl hlabel))
        · exact .inr hd

/-! ## One level inward -/

/-- How a statement can end on its own, apart from the next statement. -/
inductive Raises (s : State) : Piece → Flow → Prop
  | breaks {c : Context} (p : Position) (h : c.canBreak = true) :
      Raises s (.statement c ⟨p, .breakLoop⟩) .breaks
  | continues {c : Context} (p : Position) (h : c.canContinue = true) :
      Raises s (.statement c ⟨p, .continueLoop⟩) .continues
  | returns {c : Context} (p : Position) (e : Option Expr) (v : Value)
      (h : c.canReturn s.config.topLevelReturn = true) :
      Raises s (.statement c ⟨p, .returnValue e⟩) (.returns v)
  | jumps {c : Context} (p : Position) {label : String} (h : s.sees c label = true) :
      Raises s (.statement c ⟨p, .goto label⟩) (.jumps label)

/-- A statement without other statements in it ends on its own. -/
lemma raises_of_isSimple {c : Context} {st : Stmt} {ev : Evaluator} (hform : st.form.isSimple = true)
    (hr : (ev.executeForm c st.form).run s = .ok f s₁) (hne : f ≠ .next) :
    Raises s (.statement c st) f := by
  obtain ⟨p, form⟩ := st
  cases form with
  | block | ifElse | whileLoop | doWhile | forLoop | switch => cases hform
  | breakLoop =>
    simp only [Evaluator.executeForm] at hr
    split at hr
    · next h =>
      cases hr
      exact .breaks p h
    · cases hr
  | continueLoop =>
    simp only [Evaluator.executeForm] at hr
    split at hr
    · next h =>
      cases hr
      exact .continues p h
    · cases hr
  | goto label =>
    obtain ⟨sees, s₂, hcan, hr⟩ := run_bind_eq_ok.mp hr
    rw [Exec.run_canGoto] at hcan
    cases hcan
    split at hr
    · next h =>
      cases hr
      exact .jumps p h
    · cases hr
  | returnValue value =>
    obtain ⟨s₂, s₃, hget, hr⟩ := run_bind_eq_ok.mp hr
    cases hget
    split at hr
    · next h =>
      cases value with
      | some e =>
        obtain ⟨v, _, -, hr⟩ := run_bind_eq_ok.mp hr
        cases hr
        exact .returns p _ v h
      | none =>
        obtain ⟨v, _, -, hr⟩ := run_bind_eq_ok.mp hr
        cases hr
        exact .returns p _ v h
    · cases hr
  | label | empty =>
    cases hr
    exact absurd rfl hne
  | expr | «variables» =>
    obtain ⟨_, _, -, hr⟩ := run_bind_eq_ok.mp hr
    cases hr
    exact absurd rfl hne
  | function decl =>
    simp only [Evaluator.executeForm] at hr
    split at hr
    · obtain ⟨_, _, -, hr⟩ := run_bind_eq_ok.mp hr
      obtain ⟨_, _, -, hr⟩ := run_bind_eq_ok.mp hr
      cases hr
      exact absurd rfl hne
    · cases hr
      exact absurd rfl hne
  | classDecl decl =>
    obtain ⟨_, _, -, hr⟩ := run_bind_eq_ok.mp hr
    obtain ⟨_, _, -, hr⟩ := run_bind_eq_ok.mp hr
    obtain ⟨_, _, -, hr⟩ := run_bind_eq_ok.mp hr
    cases hr
    exact absurd rfl hne

/-- From where the way in which a piece ends comes: the statement itself, or a piece inside that the
piece does not take up. -/
theorem origin {outer : Piece} (hr : ((Evaluator.within (k + 1)).flow outer).run s = .ok f s₁)
    (hne : f ≠ .next) :
    Raises s outer f ∨ ∃ kind p s', Encloses kind outer p ∧
      (Evaluator.within k).Asks (fun ev => ev.step outer.task) s p.task s' ∧
      ((Evaluator.within k).flow p).run s' = .ok f s₁ ∧ outer.answer kind f = .exit f := by
  have hkeeps := Evaluator.within_keeps k .whole
  have hs := Realm.admits_whole s
  cases outer with
  | statement c st =>
    have hform : ((Evaluator.within k).executeForm c st.form).run s = .ok f s₁ :=
      Exec.run_located_eq_ok.mp hr
    cases hsimple : st.form.isSimple with
    | true => exact .inl (raises_of_isSimple hsimple hform hne)
    | false =>
      obtain ⟨kind, p, s', henc, ha, hflow, hexit⟩ :=
        (Flowing.executeForm hsimple).origin hkeeps hform hne
      have hcomposed : Composed .whole .full (fun ev => ev.executeForm c st.form) fun _ => True :=
        .executeForm (fun _ => trivial) c st.form fun _ _ => trivial
      exact .inr ⟨kind, p, s', henc, hcomposed.asks_located hkeeps hs ha, hflow, hexit⟩
  | list c body =>
    obtain ⟨u, s₂, hhoist, hrun⟩ := run_bind_eq_ok.mp hr
    have hflowing : Flowing (.list c body) c fun ev => ev.runFrom c body ev.bound body :=
      .bounded fun bound => .runFrom c body bound fun _ h => h
    obtain ⟨kind, p, s', henc, ha, hflow, hexit⟩ := hflowing.origin hkeeps hrun hne
    have hcomposed : Composed .whole .full (fun _ => hoistAll c body) fun _ => True :=
      .hoistAll (Nat.zero_le _) fun _ _ => trivial
    exact .inr ⟨kind, p, s', henc, hcomposed.asks_bind_after hkeeps hs hhoist ha, hflow, hexit⟩

end Piece

/-- A list asks for its first statement, once its names and labels are entered. -/
lemma Evaluator.asks_first {c : Context} {st : Stmt} {rest : List Stmt}
    (hhoist : (hoistAll c (st :: rest)).run s = .ok () s₁)
    (hgo : Exec.checkCancelled.run s₁ = .ok () s₁) :
    (within (k + 1)).Asks (fun ev => ev.step (.sequence c (st :: rest))) s (.execute c st) s₁ := by
  have hkeeps := within_keeps (k + 1) .whole
  have hadmits := Realm.admits_whole
  have hfirst : (within (k + 1)).Asks (fun ev => ev.runFrom c (st :: rest) (k + 1) (st :: rest)) s₁
      (.execute c st) s₁ := by
    -- Where the statement stops the list does.
    refine (Flowing.composed_flow (.statement c st)).asks_of_stops hkeeps (hadmits s₁) asks_flow_self ?_
    exact fun ev s₂ hr => ⟨s₂, (run_bind_ok hgo).trans (run_bind_error hr), rfl⟩
  have hrun := (asks_bound_iff (m := fun b ev => ev.runFrom c (st :: rest) b (st :: rest))).mpr hfirst
  have hall : Composed .whole .full (fun _ => hoistAll c (st :: rest)) fun _ => True :=
    .hoistAll (Nat.zero_le _) fun _ _ => trivial
  exact hall.asks_bind_after hkeeps (hadmits s) hhoist hrun

/-! ## The outermost list of a call -/

/-- Computations that compute with values and then run a list in a block below the context `c`, and
that fail if it ends with a jump. -/
inductive Bodied (c : Context) : (Evaluator → Exec α) → Prop
  | value {β : Type} {R : β → Prop} {m : Evaluator → Exec β} {k : β → Evaluator → Exec α}
      (hm : ∀ floor, Composed (.above floor) .values m R) (hk : ∀ b, R b → Bodied c (k b)) :
      Bodied c fun ev => m ev >>= fun b => k b ev
  | body {body : List Stmt} {post : Flow → Exec α}
      (hpost : ∀ label, post (.jumps label) = Exec.fail (.labelNotFound label)) :
      Bodied c fun ev => ev.runBody c body >>= post

/-- What is known of the outermost list of a call: it stands in a block of its own below the context of
the call, it sees no labels, and if it ends with a jump, then the computation fails. -/
structure Outermost (ev : Evaluator) (m : Evaluator → Exec α) (s : State) (p : Piece) (s' : State) :
    Prop where
  context : ∃ scope c, p.context = .block scope .plain c ∧ c.isCall = true
  below : p.context.Below s'.scopes.size
  blind : ∀ label, s'.sees p.context label = false
  fails : ∀ label s₁, (ev.flow p).run s' = .ok (.jumps label) s₁ →
    ∃ s₂, (m ev).run s = .error (.fault ⟨.labelNotFound label, none⟩) s₂

lemma Outermost.of_run {m m' : Evaluator → Exec α} {s₀ : State} {ev : Evaluator}
    (h : Outermost ev m s p s')
    (hrun : ∀ e s₁, (m ev).run s = .error e s₁ → ∃ s₂, (m' ev).run s₀ = .error e s₂) :
    Outermost ev m' s₀ p s' := by
  refine ⟨h.context, h.below, h.blind, fun label s₁ hr => ?_⟩
  obtain ⟨s₂, hfail⟩ := h.fails label s₁ hr
  exact hrun _ s₂ hfail

lemma Bodied.outermost {m : Evaluator → Exec α} {c : Context} (h : Bodied c m) (hcall : c.isCall = true)
    (hc : c.Below s.scopes.size) (hblind : ∀ label, s.sees c label = false)
    (ha : (Evaluator.within k).Asks m s p.task s') : Outermost (Evaluator.within k) m s p s' := by
  have hkeeps := Evaluator.within_keeps k
  induction h generalizing s with
  | value hm _ ih =>
    rcases Evaluator.asks_bind ha with ha | ⟨b, s₁, hr, ha⟩
    · exact absurd ha (Flowing.not_asks_value (hm 0) (hkeeps _) (Nat.zero_le _))
    · have hleft := (hm s.scopes.size).left (hkeeps _) (Realm.admits_above (Nat.le_refl _))
      rw [hr] at hleft
      have hkept := hleft.1
      have hinner := ih b hleft.2 (hc.mono hkept.size_le) (fun label => by rw [hkept.sees hc, hblind]) ha
      exact hinner.of_run fun e s₂ hfail => ⟨s₂, (run_bind_ok hr).trans hfail⟩
  | @body body post hpost =>
    -- The list is asked for in the state with the new block.
    have hrun : ∀ ev : Evaluator, (ev.runBody c body >>= post).run s =
        (ev.flow (.list (.block ⟨s.scopes.size⟩ .plain c) body) >>= post).run s.opened := fun ev => rfl
    have ha' := ha.congr_from hrun
    rcases Evaluator.asks_bind (k := fun f _ => post f) ha' with ha | ⟨_, _, _, ha⟩
    · obtain ⟨htask, rfl⟩ := Evaluator.asks_flow ha
      obtain rfl := Piece.task_injective htask
      refine ⟨⟨_, c, rfl, hcall⟩, State.below_opened hc .plain, fun label => ?_, fun label s₁ hr => ?_⟩
      · exact (State.sees_opened hc .plain).trans (hblind label)
      · refine ⟨s₁, ?_⟩
        rw [hrun, run_bind_ok hr, hpost]
        rfl
    · exact absurd ha (Evaluator.not_asks_const _)

/-- A context that was just made for a call sees no labels. -/
lemma State.blind_opened {c : Context} (hcall : c.isCall = true) (hscope : c.scope = ⟨s.scopes.size⟩) :
    c.Below s.opened.scopes.size ∧ ∀ label, s.opened.sees c label = false := by
  have hjump : c.jumpScopes = [⟨s.scopes.size⟩] := by
    cases c with
    | function | method => exact congrArg (fun id => [id]) hscope
    | root | block => cases hcall
  refine ⟨?_, fun label => ?_⟩
  · cases c with
    | function | method =>
      rw [State.size_opened]
      show _ < _
      simp only [Context.scope] at hscope
      simp [hscope]
    | root | block => cases hcall
  · simp [State.sees, hjump, State.labelsOf_opened_size]

lemma Bodied.runIn (c : Context) (decl : FunctionDecl) (args : List Value) :
    Bodied c fun ev => ev.runIn c decl args := by
  refine .value (fun _ => .bindParameters Licence.values_evaluates c decl args) fun _ _ => ?_
  exact .body fun _ => rfl

lemma Evaluator.run_setUpScript (self : Evaluator) (c : Context) (id : ClassId) (cls : Class)
    (closure : Context) (constructor : Option FunctionDecl) (i : InstanceId) (args : List Value)
    (s : State) :
    (self.setUpScript c id cls closure constructor i args).run s =
      (self.constructIn c (.method ⟨s.scopes.size⟩ closure id (some (.instanceRef i))) cls
        constructor i args).run s.opened :=
  run_bind_ok (x := Exec.newMethodContext closure id (some (.instanceRef i))) rfl

lemma Bodied.constructIn (c context : Context) (cls : Class) (constructor : Option FunctionDecl)
    (i : InstanceId) (args : List Value) :
    Bodied context fun ev => ev.constructIn c context cls constructor i args := by
  have hvalues := Licence.values_evaluates
  refine .value (fun _ => .bindConstructor hvalues context cls constructor args) fun body _ => ?_
  refine .value (fun _ => .setUpParent hvalues c context cls i fun _ _ => trivial) fun _ _ => ?_
  refine .value (fun _ => .setUpFields hvalues context i _) fun _ _ => ?_
  exact .body fun _ => rfl

/-- The computation in a call, seen from the call. -/
lemma Outermost.asCall {m : Evaluator → Exec α} {ev : Evaluator} (h : Outermost ev m s.entered p s')
    (hd : s.depth < s.config.maxCallDepth) : Outermost ev (fun ev => Exec.asCall (m ev)) s p s' :=
  h.of_run fun _ s₂ hfail => ⟨s₂.left, Exec.run_asCall_of_error hd hfail⟩

/-- What a call does with its outermost list. -/
theorem Task.outermost {t : Task} (hcall : t.isCall = true)
    (ha : (Evaluator.within k).Asks (fun ev => ev.step t) s p.task s') :
    Outermost (Evaluator.within k) (fun ev => ev.step t) s p s' := by
  have hkeeps := Evaluator.within_keeps k .whole
  cases t with
  | invoke frame decl args =>
    obtain ⟨c, hrun, hc, hscope⟩ := Exec.run_newContext frame s
    have hstep : ∀ ev : Evaluator, (ev.step (.invoke frame decl args)).run s =
        (Exec.asCall (ev.runIn c decl args)).run s.opened := fun ev => run_bind_ok hrun
    obtain ⟨hd, ha⟩ := Evaluator.asks_asCall (ha.congr_from hstep)
    obtain ⟨hbelow, hblind⟩ := State.blind_opened hc hscope
    have hinner := (Bodied.runIn c decl args).outermost (s := s.opened.entered) hc hbelow hblind ha
    exact (hinner.asCall hd).of_run fun e s₂ hfail => ⟨s₂, (hstep _).trans hfail⟩
  | setUp c id i args =>
    cases hcls : s.registry.get? id with
    | none =>
      have hclass : (Exec.classOf id).run s =
          .error (.fault ⟨.notAClass ("class #" ++ toString id.index), none⟩) s := by
        simp only [Exec.classOf, EStateM.run_bind, EStateM.run_get, hcls]
        rfl
      have hstep : ∀ ev : Evaluator, (ev.step (.setUp c id i args)).run s =
          (throw (.fault ⟨.notAClass ("class #" ++ toString id.index), none⟩) : Exec Unit).run s :=
        fun ev => run_bind_error hclass
      exact absurd (ha.congr_from hstep) (Evaluator.not_asks_const _)
    | some cls =>
      have hclass : (Exec.classOf id).run s = .ok cls s := by simp [Exec.classOf, hcls]
      have hstep : ∀ ev : Evaluator, (ev.step (.setUp c id i args)).run s =
          (Exec.asCall (ev.setUpAs c id cls i args)).run s := fun ev => run_bind_ok hclass
      obtain ⟨hd, hinside⟩ := Evaluator.asks_asCall (ha.congr_from hstep)
      have hmade : Outermost (Evaluator.within k) (fun ev => ev.setUpAs c id cls i args) s.entered p s' := by
        unfold Evaluator.setUpAs at hinside ⊢
        cases horigin : cls.origin with
        | host constructor =>
          simp only [horigin] at hinside
          have hhost : Composed .whole .values (fun ev => ev.setUpHost c cls constructor i args)
              fun _ => True :=
            .setUpHost Licence.values_evaluates c cls (fun _ _ => trivial) i args
          exact absurd hinside (Flowing.not_asks_value hhost hkeeps (Nat.zero_le _))
        | script closure constructor =>
          simp only [horigin] at hinside ⊢
          have hopens := fun ev : Evaluator =>
            ev.run_setUpScript c id cls closure constructor i args s.entered
          let context : Context := .method ⟨s.scopes.size⟩ closure id (some (.instanceRef i))
          obtain ⟨hbelow, hblind⟩ := State.blind_opened (c := context) (s := s.entered) rfl rfl
          have hinner := (Bodied.constructIn c context cls constructor i args).outermost rfl hbelow
            hblind (hinside.congr_from hopens)
          exact hinner.of_run fun e s₂ hfail => ⟨s₂, (hopens _).trans hfail⟩
      exact (hmade.asCall hd).of_run fun e s₂ hfail => ⟨s₂, (hstep _).trans hfail⟩
  | _ => cases hcall

/-! ## Outward along the trail -/

/-- How `f`, with which `p` ended in the state `s₁`, is caught: the innermost piece around `p` that
takes it up is part of the same call, and ends or goes on from there. -/
inductive Caught (n : Nat) (m : Evaluator → Exec α) (s : State) (f : Flow) (s₁ : State) :
    (trail : List Task) → (p : Piece) → Prop
  | here {trail : List Task} {k : Nat} {kind : BlockFlow} {p outer : Piece} {s' : State}
      (hpart : Part n m s trail (k + 1) outer.task s') (henc : Encloses kind outer p)
      (htakes : outer.takes kind f = true) (hends : outer.EndsAfter k s' kind f s₁) :
      Caught n m s f s₁ (outer.task :: trail) p
  | beyond {trail : List Task} {kind : BlockFlow} {p outer : Piece} (henc : Encloses kind outer p)
      (hnot : outer.takes kind f = false) (h : Caught n m s f s₁ trail outer) :
      Caught n m s f s₁ (outer.task :: trail) p

/-- How `f`, with which `p` ended in the state `s₁`, is not caught: the pieces around `p`, which are
listed from the inside out, hand it on, and the outermost one ends with it. -/
inductive Uncaught (n : Nat) (m : Evaluator → Exec α) (s : State) (f : Flow) (s₁ : State) :
    (trail : List Task) → (p : Piece) → (passed : List Piece) → Prop
  | outermost {trail : List Task} {k : Nat} {p : Piece} {s' : State}
      (hpart : Part n m s trail k p.task s') (hr : ((Evaluator.within k).flow p).run s' = .ok f s₁)
      (hcall : ∀ t ∈ trail.head?, t.isCall = true) : Uncaught n m s f s₁ trail p []
  | beyond {trail : List Task} {kind : BlockFlow} {p outer : Piece} {passed : List Piece}
      (henc : Encloses kind outer p) (hnot : outer.takes kind f = false)
      (h : Uncaught n m s f s₁ trail outer passed) :
      Uncaught n m s f s₁ (outer.task :: trail) p (outer :: passed)

namespace Part

variable {L : Licence} {Q : α → Prop} {m : Evaluator → Exec α} {trail : List Task}

/-- What leads to a piece is a piece around it or a call. -/
lemma isFlow_or_isCall (hm : Composed .whole L m Q) {t : Task}
    (hpart : Part n m s (t :: trail) k p.task s') : t.isFlow = true ∨ t.isCall = true := by
  obtain ⟨s₀, hpart, ha⟩ := hpart.of_cons
  have hstand := hpart.standing hm (Realm.admits_whole s)
  exact (Task.leads hstand.allowed hstand.admits ha).licensed p.isFlow_task

/-- However a piece ends, this is caught or not. -/
theorem caught_or_uncaught (hm : Composed .whole L m Q) (hpart : Part n m s trail k p.task s')
    (hr : ((Evaluator.within k).flow p).run s' = .ok f s₁) (hne : f ≠ .next) :
    Caught n m s f s₁ trail p ∨ ∃ passed, Uncaught n m s f s₁ trail p passed := by
  -- From the inside out: a piece that hands it on ends with it, and takes the place of `p`.
  induction trail generalizing p k s' with
  | nil => exact .inr ⟨[], .outermost hpart hr fun t ht => absurd ht (Option.not_mem_none t)⟩
  | cons t trail ih =>
    rcases hpart.isFlow_or_isCall hm with hflow | hcall
    · -- The next piece takes it up or ends in the same way.
      obtain ⟨outer, rfl⟩ := Piece.exists_of_isFlow hflow
      obtain ⟨s₀, hpart, ha⟩ := hpart.of_cons
      obtain ⟨kind, hinner⟩ := Piece.inner ha
      have hends := hinner.ends f s₁ hr hne
      cases htakes : outer.takes kind f with
      | true => exact .inl (.here hpart hinner.encloses htakes hends)
      | false =>
        unfold Piece.EndsAfter at hends
        rw [Piece.answer_of_not_takes hne htakes] at hends
        rcases ih hpart hends with hcaught | ⟨passed, hun⟩
        · exact .inl (.beyond hinner.encloses htakes hcaught)
        · exact .inr ⟨outer :: passed, .beyond hinner.encloses htakes hun⟩
    · refine .inr ⟨[], .outermost hpart hr ?_⟩
      intro t' ht'
      rwa [← Option.some.inj ht']

end Part

end ScriptLang
