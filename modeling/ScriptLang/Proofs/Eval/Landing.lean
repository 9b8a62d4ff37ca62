/-
Where a goto leads.

A goto looks its label up in the scopes of its context, and the jump is taken up by the innermost list
around it that has the label (`Lands`).  The two do not always agree, as two kinds of scopes outlive the
list that declared their labels: the scope of a for-loop keeps those of its first part while the loop
runs, and the scope of the root keeps those of earlier scripts.  These are the only kinds, and a jump to
such a label makes the call or the script around it fail (`Stale`, `Misses`).
-/
import ScriptLang.Proofs.Eval.Leaving
import ScriptLang.Proofs.Eval.Surface

namespace ScriptLang

variable {α : Type} {n k : Nat} {s s' s₁ : State} {p : Piece} {label : String} {trail : List Task}
  {script : List Stmt}

/-- A goto jumps if it sees its label, and fails at its place otherwise. -/
lemma Evaluator.run_goto (k : Nat) (c : Context) (place : Position) (label : String) (s : State) :
    ((within (k + 1)).execute c ⟨place, .goto label⟩).run s =
      if s.sees c label then .ok (.jumps label) s
      else .error (.fault ⟨.labelNotFound label, some place⟩) s := by
  have hform : ((within k).executeForm c (.goto label)).run s =
      if s.sees c label then .ok (.jumps label) s
      else .error (.fault ⟨.labelNotFound label, none⟩) s := by
    simp only [executeForm, run_bind_ok (Exec.run_canGoto c label s)]
    split <;> rfl
  cases hsees : s.sees c label with
  | true => exact Exec.run_located_of_ok (by rw [hform, hsees, if_pos rfl])
  | false => exact Exec.run_located_of_error (by rw [hform, hsees, if_neg Bool.false_ne_true])

/-! ## Landing -/

/-- A jump from `p` in the state `s₁` lands: the innermost list around `p` that has the label is part of
the same call, and goes on with the statement that declares the label. -/
inductive Lands (n : Nat) (m : Evaluator → Exec α) (s : State) (label : String) (s₁ : State) :
    (trail : List Task) → (p : Piece) → Prop
  | here {trail : List Task} {k bound : Nat} {kind : BlockFlow} {p : Piece} {c : Context}
      {body before rest : List Stmt} {st : Stmt} {s' : State}
      (hpart : Part n m s trail (k + 1) (.sequence c body) s') (henc : Encloses kind (.list c body) p)
      (hbody : body = before ++ st :: rest) (hform : st.form = .label label)
      (hgoes : ((Evaluator.within (k + 1)).sequence c body).run s' =
        ((Evaluator.within k).runFrom c body bound (st :: rest)).run s₁) :
      Lands n m s label s₁ (.sequence c body :: trail) p
  | beyond {trail : List Task} {kind : BlockFlow} {p outer : Piece} (henc : Encloses kind outer p)
      (hnot : outer.hasLabel label = false) (h : Lands n m s label s₁ trail outer) :
      Lands n m s label s₁ (outer.task :: trail) p

/-- A jump that is caught lands. -/
theorem Caught.lands {m : Evaluator → Exec α} (h : Caught n m s (.jumps label) s₁ trail p) :
    Lands n m s label s₁ trail p := by
  induction h with
  | beyond henc hnot _ ih => exact .beyond henc hnot ih
  | @here trail k kind p outer s' hpart henc htakes hends =>
    have hanswer : outer.answer kind (.jumps label) = .proceed := if_pos htakes
    unfold Piece.EndsAfter at hends
    rw [hanswer] at hends
    obtain ⟨r, hrest, hrun⟩ := hends
    cases hrest with
    | landing bound htarget =>
      obtain ⟨st, rest, before, rfl, hform, hbody⟩ := form_of_fromLabel? htarget
      exact .here hpart henc hbody hform hrun

/-- A jump lands only if a list that leads to it has the label. -/
lemma Lands.exists_list {m : Evaluator → Exec α} (h : Lands n m s label s₁ trail p) :
    ∃ c body, Task.sequence c body ∈ trail ∧ (fromLabel? label body).isSome := by
  induction h with
  | @here _ _ _ _ _ c body before rest st _ _ _ hbody hform _ =>
    refine ⟨c, body, List.mem_cons_self, isSome_fromLabel?_iff.mpr ⟨st, ?_, hform⟩⟩
    rw [hbody]
    exact List.mem_append_right before List.mem_cons_self
  | beyond _ _ _ ih =>
    obtain ⟨c, body, hmem, hlabel⟩ := ih
    exact ⟨c, body, List.mem_cons_of_mem _ hmem, hlabel⟩

/-! ## Labels that are seen -/

/-- The pieces of a script stand in contexts whose scopes are there. -/
lemma Part.context_below (hs : 0 < s.scopes.size)
    (hpart : Part n (fun ev => Interpreter.run ev script) s trail k p.task s') :
    p.context.Below s'.scopes.size := by
  induction trail generalizing p k s' with
  | nil =>
    obtain ⟨rfl, rfl⟩ := Interpreter.asks_run hpart.of_nil.2
    exact hs
  | cons t trail ih =>
    have hrun : Entry fun ev => Interpreter.run ev script := .run script
    obtain ⟨s₀, houter, ha⟩ := hpart.of_cons
    rcases hpart.isFlow_or_isCall (hrun.composed (W := .whole) rfl) with hflow | hcall
    · obtain ⟨outer, rfl⟩ := Piece.exists_of_isFlow hflow
      obtain ⟨kind, hinner⟩ := Piece.inner ha
      exact hinner.below (ih houter)
    · exact (Task.outermost hcall ha).below

/-- Why a label is seen where no list around has it: it is that of the first part of a for-loop that is
left, or that of an earlier script and no call stands around. -/
inductive Stale (earlier : List (List Stmt)) (label : String) (trail : List Task) (passed : List Piece) :
    Prop
  | loop {p : Piece} (hmem : p ∈ passed) (h : p.startsWithLabel label = true)
  | script {old : List Stmt} (hmem : old ∈ earlier) (h : (fromLabel? label old).isSome)
      (htrail : trail = passed.map Piece.task)

/-- A label that is seen and that no list around takes up is stale. -/
theorem Uncaught.stale {earlier : List (List Stmt)} {passed : List Piece} (hs : 0 < s.scopes.size)
    (hroot : ∀ label ∈ s.labelsOf 0, ∃ old ∈ earlier, (fromLabel? label old).isSome)
    (h : Uncaught n (fun ev => Interpreter.run ev script) s (.jumps label) s₁ trail p passed)
    (hpart : Part n (fun ev => Interpreter.run ev script) s trail k p.task s')
    (hsees : s'.sees p.context label = true) : Stale earlier label trail passed := by
  -- From the inside out: a label that is seen is declared by the piece around or seen there too.
  induction h generalizing k s' with
  | @outermost trail _ p _ _ _ hcall =>
    cases trail with
    | nil =>
      obtain ⟨rfl, rfl⟩ := Interpreter.asks_run hpart.of_nil.2
      obtain ⟨id, hid, hlabel⟩ := State.sees_iff.mp hsees
      cases List.mem_singleton.mp hid
      obtain ⟨old, hmem, hold⟩ := hroot label hlabel
      exact .script hmem hold rfl
    | cons t trail =>
      -- A call sees no labels from outside.
      obtain ⟨s₀, -, ha⟩ := hpart.of_cons
      rw [(Task.outermost (hcall t rfl) ha).blind] at hsees
      cases hsees
  | @beyond trail kind p outer passed henc hnot _ ih =>
    obtain ⟨s₀, houter, ha⟩ := hpart.of_cons
    obtain ⟨kind', hinner⟩ := Piece.inner ha
    rcases hinner.sees (houter.context_below hs) label hsees with hsees | hdeclares
    · cases ih houter hsees with
      | loop hmem h => exact .loop (List.mem_cons_of_mem outer hmem) h
      | script hmem h htrail => exact .script hmem h (congrArg (outer.task :: ·) htrail)
    · -- A list with the label would have taken up the jump.
      have hfirst : outer.startsWithLabel label = true := by
        have hlist : outer.hasLabel label = false := hnot
        simpa [Piece.declares, hlist] using hdeclares
      exact .loop List.mem_cons_self hfirst

/-! ## Jumps that nothing takes up -/

/-- How a jump ends that all the pieces around it hand on: the call around them fails, without a place,
or else the script. -/
inductive Misses (n : Nat) (script : List Stmt) (s : State) (label : String) (passed : List Piece)
    (trail : List Task) : Prop
  | call {k : Nat} {t : Task} {rest : List Task} {s' s₂ : State}
      (htrail : trail = passed.map Piece.task ++ t :: rest) (hcall : t.isCall = true)
      (hpart : Part n (fun ev => Interpreter.run ev script) s rest (k + 1) t s')
      (hr : ((Evaluator.within (k + 1)).perform t).run s' =
        .error (.fault ⟨.labelNotFound label, none⟩) s₂)
  | script {s₂ : State} (htrail : trail = passed.map Piece.task)
      (hr : (Interpreter.run (Evaluator.within n) script).run s =
        .error (.fault ⟨.labelNotFound label, none⟩) s₂)

theorem Uncaught.misses {passed : List Piece}
    (h : Uncaught n (fun ev => Interpreter.run ev script) s (.jumps label) s₁ trail p passed) :
    Misses n script s label passed trail := by
  induction h with
  | @outermost trail k p s' hpart hr hcall =>
    cases trail with
    | nil =>
      obtain ⟨rfl, ha⟩ := hpart.of_nil
      obtain ⟨rfl, rfl⟩ := Interpreter.asks_run ha
      exact .script rfl (run_bind_ok hr)
    | cons t trail =>
      obtain ⟨s₀, houter, ha⟩ := hpart.of_cons
      obtain ⟨s₂, hfail⟩ := (Task.outermost (hcall t rfl) ha).fails label s₁ hr
      exact .call rfl (hcall t rfl) houter hfail
  | @beyond _ _ _ outer _ _ _ _ ih =>
    cases ih with
    | call htrail hcall hpart hr => exact .call (congrArg (outer.task :: ·) htrail) hcall hpart hr
    | script htrail hr => exact .script (congrArg (outer.task :: ·) htrail) hr

/-- A for-loop with the label in its first part is part of the run. -/
def RunsLoopWith (label : String) (n : Nat) (m : Evaluator → Exec α) (s : State) : Prop :=
  ∃ (loop : Piece) (trail : List Task) (k : Nat) (s' : State),
    loop.startsWithLabel label = true ∧ Part n m s trail k loop.task s'

/-- A piece ends with a jump only if it saw the label from the start, or if a for-loop with the label in
its first part runs. -/
theorem Piece.seen_of_jumps (hc : p.context.Below s.scopes.size)
    (hr : ((Evaluator.within n).flow p).run s = .ok (.jumps label) s₁) :
    s.sees p.context label = true ∨ RunsLoopWith label n (fun ev => ev.perform p.task) s := by
  induction n generalizing p s with
  | zero => cases p <;> cases hr
  | succ n ih =>
    have hself : Part (n + 1) (fun ev => ev.perform p.task) s [] (n + 1) p.task s :=
      .asked Evaluator.asks_perform_self
    rcases Piece.origin hr nofun with hraises | ⟨kind, q, s', henc, ha, hflow, hexit⟩
    · cases hraises with
      | jumps _ hsees => exact .inl hsees
    · obtain ⟨kind', hinner⟩ := Piece.inner ha
      rcases ih (hinner.below hc) hflow with hsees | ⟨loop, trail, k, s'', hloop, hpart⟩
      · rcases hinner.sees hc label hsees with hsees | hdeclares
        · exact .inl hsees
        · -- The piece hands the jump on, so it is no list with the label.
          have hne : Flow.jumps label ≠ .next := nofun
          have hlist : p.hasLabel label = false := Piece.not_takes_of_exit hne hexit
          have hfirst : p.startsWithLabel label = true := by
            simpa [Piece.declares, hlist] using hdeclares
          exact .inr ⟨p, [], n + 1, s, hfirst, hself⟩
      · exact .inr ⟨loop, trail ++ [p.task], k, s'', hloop, (hself.inner ha).nest hpart⟩

/-! ## Scripts one after the other -/

/-- The states of an interpreter in which the host has run scripts, the last one first.  What else the
host does in between adds no labels to the root. -/
inductive Session : (earlier : List (List Stmt)) → State → Prop
  | start {config : Config} {services : Services} {s : State}
      (h : Interpreter.start config services = .ok s) : Session [] s
  | run {earlier : List (List Stmt)} {s : State} (h : Session earlier s) (n : Nat)
      (script : List Stmt) :
      Session (script :: earlier) ((Interpreter.run (Evaluator.within n) script).after s)
  | other {earlier : List (List Stmt)} {s s' : State} (h : Session earlier s)
      (hsize : s.scopes.size ≤ s'.scopes.size) (hlabels : s'.labelsOf 0 = s.labelsOf 0) :
      Session earlier s'

/-- A new interpreter has a root without labels. -/
lemma Interpreter.labelsOf_start {config : Config} {services : Services}
    (h : start config services = .ok s) : 0 < s.scopes.size ∧ s.labelsOf 0 = [] := by
  -- The root is the first scope, and declaring functions adds no labels to it.
  have hrun : (builtins.forM defineFunction).run (State.opened { config, services }) = .ok () s :=
    run_prepare_of_start h
  have hm : Composed (.above 1) .full (fun _ => builtins.forM defineFunction) fun _ => True :=
    .forM builtins fun f _ => .bind (.run (.newFunction (.host f) trivial)) fun v _ =>
      .run (.declare root f.name .function v)
  have hadmits : (Realm.above 1).Admits (State.opened { config, services }) :=
    Realm.admits_above (Nat.le_refl 1)
  have hleft := hm.left (Evaluator.within_keeps 0 _) hadmits
  rw [hrun] at hleft
  have hkept := hleft.1
  exact ⟨hkept.size_le, hkept.labelsOf 0 Nat.zero_lt_one⟩

/-- The labels of the root are those of earlier scripts. -/
theorem Session.labels {earlier : List (List Stmt)} (h : Session earlier s) :
    0 < s.scopes.size ∧ ∀ label ∈ s.labelsOf 0, ∃ old ∈ earlier, (fromLabel? label old).isSome := by
  induction h with
  | start h =>
    obtain ⟨hsize, hlabels⟩ := Interpreter.labelsOf_start h
    exact ⟨hsize, fun label hl => absurd hl (hlabels ▸ List.not_mem_nil)⟩
  | @run earlier s h n script ih =>
    have hlabelled := Labelled.sequence n Interpreter.root script s
    have hafter : (Interpreter.run (Evaluator.within n) script).after s =
        ((Evaluator.within n).sequence Interpreter.root script).after s := by
      cases hr : ((Evaluator.within n).sequence Interpreter.root script).run s with
      | error e s' =>
        rw [Exec.after_of_error hr]
        exact Exec.after_bind_of_error hr
      | ok f s' =>
        rw [Exec.after_of_ok hr]
        refine (Exec.after_bind_of_ok hr).trans ?_
        cases f <;> rfl
    rw [hafter]
    refine ⟨Nat.lt_of_lt_of_le ih.1 hlabelled.size_le, fun label hl => ?_⟩
    rcases hlabelled.mem 0 ih.1 label hl with hl | ⟨-, hnew⟩
    · obtain ⟨old, hmem, hold⟩ := ih.2 label hl
      exact ⟨old, List.mem_cons_of_mem script hmem, hold⟩
    · exact ⟨script, List.mem_cons_self, isSome_fromLabel?_iff.mpr hnew⟩
  | other _ hsize hlabels ih => exact ⟨Nat.lt_of_lt_of_le ih.1 hsize, hlabels ▸ ih.2⟩

/-! ## Gotos -/

/-- What becomes of a goto in the run of a script after earlier ones. -/
inductive GotoEnds (earlier : List (List Stmt)) (n : Nat) (script : List Stmt) (s : State)
    (trail : List Task) (k : Nat) (c : Context) (place : Position) (label : String) (s' : State) : Prop
  /-- It does not see its label and fails at its place. -/
  | refused (hsees : s'.sees c label = false)
      (hr : ((Evaluator.within (k + 1)).execute c ⟨place, .goto label⟩).run s' =
        .error (.fault ⟨.labelNotFound label, some place⟩) s')
  /-- It lands. -/
  | lands (hsees : s'.sees c label = true)
      (h : Lands n (fun ev => Interpreter.run ev script) s label s' trail
        (.statement c ⟨place, .goto label⟩))
  /-- It sees a stale label, and the call or the script around it fails. -/
  | misses (hsees : s'.sees c label = true) (passed : List Piece)
      (hnot : ∀ q ∈ passed, q.hasLabel label = false) (hstale : Stale earlier label trail passed)
      (h : Misses n script s label passed trail)

/-- The pieces that a jump leaves do not have its label. -/
lemma Uncaught.not_hasLabel {m : Evaluator → Exec α} {passed : List Piece}
    (h : Uncaught n m s (.jumps label) s₁ trail p passed) :
    ∀ q ∈ passed, q.hasLabel label = false := by
  induction h with
  | outermost => exact fun q hq => absurd hq List.not_mem_nil
  | beyond _ hnot _ ih =>
    intro q hq
    rcases List.mem_cons.mp hq with rfl | hq
    · exact hnot
    · exact ih q hq

/-- **Gotos.**  Whatever scripts ran before, every goto of a script fails at its place, or lands at its
label in the innermost list of the same call that has it, or its label is stale: that of an earlier
script or of the first part of a for-loop that runs.  The outermost lists of a script and of a call end
with a jump only for such labels. -/
theorem gotos_land_unless_stale {earlier : List (List Stmt)} (hs : Session earlier s) (n : Nat)
    (script : List Stmt) :
    (∀ trail k c place label s',
      Part n (fun ev => Interpreter.run ev script) s trail (k + 1) (.execute c ⟨place, .goto label⟩) s' →
      GotoEnds earlier n script s trail k c place label s') ∧
    (∀ label s₁, ((Evaluator.within n).sequence Interpreter.root script).run s = .ok (.jumps label) s₁ →
      (∃ old ∈ earlier, (fromLabel? label old).isSome) ∨
      RunsLoopWith label n (fun ev => ev.sequence Interpreter.root script) s) ∧
    ∀ trail k t (p : Piece) label s' s₁,
      Part n (fun ev => Interpreter.run ev script) s (t :: trail) k p.task s' → t.isCall = true →
      ((Evaluator.within k).flow p).run s' = .ok (.jumps label) s₁ →
      RunsLoopWith label k (fun ev => ev.perform p.task) s' := by
  obtain ⟨hsize, hroot⟩ := hs.labels
  refine ⟨?_, ?_, ?_⟩
  · intro trail k c place label s' hpart
    have hrun := Evaluator.run_goto k c place label s'
    cases hsees : s'.sees c label with
    | false =>
      rw [hsees, if_neg Bool.false_ne_true] at hrun
      exact .refused hsees hrun
    | true =>
      rw [hsees, if_pos rfl] at hrun
      let goto : Piece := .statement c ⟨place, .goto label⟩
      have hentry : Entry fun ev => Interpreter.run ev script := .run script
      have hends := Part.caught_or_uncaught (p := goto) (hentry.composed rfl) hpart hrun nofun
      rcases hends with hcaught | ⟨passed, hun⟩
      · exact .lands hsees hcaught.lands
      · exact .misses hsees passed hun.not_hasLabel (hun.stale hsize hroot hpart hsees) hun.misses
  · intro label s₁ hr
    rcases Piece.seen_of_jumps (p := .list Interpreter.root script) hsize hr with hsees | hloop
    · obtain ⟨id, hid, hlabel⟩ := State.sees_iff.mp hsees
      cases List.mem_singleton.mp hid
      exact .inl (hroot label hlabel)
    · exact .inr hloop
  · intro trail k t p label s' s₁ hpart hcall hr
    obtain ⟨s₀, -, ha⟩ := hpart.of_cons
    have houtermost := Task.outermost hcall ha
    rcases Piece.seen_of_jumps houtermost.below hr with hsees | hloop
    · rw [houtermost.blind] at hsees
      cases hsees
    · exact hloop

/-- A script with a label, and one that jumps to it. -/
def labelScript : List Stmt := [⟨⟨1, 1⟩, .label "L"⟩]

def gotoScript : List Stmt := [⟨⟨2, 3⟩, .goto "L"⟩]

/-- A new interpreter with the usual options. -/
def newState : State :=
  match Interpreter.start {} {} with
  | .ok s => s
  | .error _ => {}

lemma start_newState : Interpreter.start {} {} = .ok newState := by
  have hok : (Interpreter.start {} {}).isOk = true := by decide +kernel
  unfold newState
  split
  · next s h => exact h
  · next e h =>
    rw [h] at hok
    cases hok

/-- What the first of the two scripts makes of it. -/
def labelledState : State := (Interpreter.run (Evaluator.within 4) labelScript).after newState

lemma session_labelledState : Session [labelScript] labelledState :=
  .run (.start start_newState) 4 labelScript

lemma sees_labelledState : labelledState.sees Interpreter.root "L" = true := by decide +kernel

lemma goes_labelledState : Exec.checkCancelled.run labelledState = .ok () labelledState := by
  have hcancelled : labelledState.cancelled = false := by decide +kernel
  simp [Exec.checkCancelled, hcancelled]

lemma run_gotoScript (hgo : Exec.checkCancelled.run s = .ok () s)
    (hsees : s.sees Interpreter.root "L" = true) :
    (Interpreter.run (Evaluator.within 4) gotoScript).run s =
      .error (.fault ⟨.labelNotFound "L", none⟩) s := by
  have hgoto := Evaluator.run_goto 2 Interpreter.root ⟨2, 3⟩ "L" s
  rw [hsees, if_pos rfl] at hgoto
  have hlist : ((Evaluator.within 4).sequence Interpreter.root gotoScript).run s = .ok (.jumps "L") s :=
    (run_bind_ok hgo).trans (run_bind_ok hgoto)
  exact run_bind_ok hlist

/-- The label is seen, but no list has it any more: the script fails without a place. -/
theorem goto_of_earlier_script_has_no_place :
    Session [labelScript] labelledState ∧ labelledState.sees Interpreter.root "L" = true ∧
      (Interpreter.run (Evaluator.within 4) gotoScript).run labelledState =
        .error (.fault ⟨.labelNotFound "L", none⟩) labelledState :=
  ⟨session_labelledState, sees_labelledState, run_gotoScript goes_labelledState sees_labelledState⟩

theorem gotos_land_unless_stale_second_script :
    ∃ passed, Stale [labelScript] "L" [.sequence Interpreter.root gotoScript] passed ∧
      Misses 4 gotoScript labelledState "L" passed [.sequence Interpreter.root gotoScript] := by
  have hscript := Interpreter.asks_run_self 4 gotoScript labelledState
  have hpart := (Part.asked hscript).inner (Evaluator.asks_first rfl goes_labelledState)
  cases (gotos_land_unless_stale session_labelledState 4 gotoScript).1 _ _ _ _ _ _ hpart with
  | refused hnot =>
    rw [sees_labelledState] at hnot
    cases hnot
  | misses _ passed _ hstale h => exact ⟨passed, hstale, h⟩
  | lands _ h =>
    obtain ⟨c, body, hmem, hlabel⟩ := h.exists_list
    cases List.mem_singleton.mp hmem
    cases hlabel

end ScriptLang
