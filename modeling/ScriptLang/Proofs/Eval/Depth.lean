/-
The number of active calls is exact.

While code runs, the number of active calls is the number with which it started and one more for every
function of the script and every class of a construction that it is inside of.  When it ends, whether
with a result or with a failure, the number is the one with which it started.  A call is refused
exactly if it would be one more than the options allow.

All this holds whatever the functions of the host do that are called on the way.  They may call back as
often as they like, and go on after a call that was refused.
-/
import ScriptLang.Host.Library
import ScriptLang.Proofs.Eval.Step

namespace ScriptLang

variable {α : Type} {n : Nat} {m : Evaluator → Exec α} {s s' : State}

/-- Whatever composed code does, it ends as deep as it started. -/
lemma Composed.depth_after {L : Licence} {Q : α → Prop} (hm : Composed .whole L m Q) :
    ((m (Evaluator.within n)).after s).depth = s.depth := by
  have hleft := hm.left (Evaluator.within_keeps n .whole) (Realm.admits_whole s)
  cases hr : (m (Evaluator.within n)).run s with
  | ok a s' =>
    rw [hr] at hleft
    rw [Exec.after_of_ok hr]
    exact hleft.1.depth
  | error e s' =>
    rw [hr] at hleft
    rw [Exec.after_of_error hr]
    exact Realm.Kept.depth hleft

/-- To perform a task is a composed computation like others. -/
lemma Task.composed (t : Task) :
    Composed .whole Licence.full (fun ev => ev.perform t) fun _ => True :=
  .ask trivial (Realm.allows_whole t) fun _ => trivial

/-- A task ends as deep as it started. -/
lemma Task.depth_after (n : Nat) (t : Task) (s : State) :
    (((Evaluator.within n).perform t).after s).depth = s.depth :=
  t.composed.depth_after

/-- A call that is refused fails where it would enter. -/
lemma Task.run_of_refused {t : Task} {k : Nat} (henters : t.enters s = true)
    (hd : s.config.maxCallDepth ≤ s.depth) :
    ∃ s₁, ((Evaluator.within (k + 1)).perform t).run s =
      .error (.fault ⟨.stackOverflow s.config.maxCallDepth, none⟩) s₁ := by
  show ∃ s₁, ((Evaluator.within k).step t).run s = _
  cases t.step (Realm.allows_whole t) (Realm.admits_whole s) with
  | plain _ hnot =>
    rw [Task.isCall_of_enters henters] at hnot
    cases hnot
  | @call inner s₀ _ hkept _ hrun =>
    have hd₀ : s₀.config.maxCallDepth ≤ s₀.depth := by rwa [hkept.config, hkept.depth]
    rw [hrun, Exec.run_asCall_of_le hd₀, hkept.config]
    exact ⟨s₀, rfl⟩
  | refused hnot =>
    rw [henters] at hnot
    cases hnot

/-- Where too many calls come from: a call was refused, or a function of the host said so on its own
account. -/
inductive Overflow (n : Nat) (m : Evaluator → Exec α) (s : State) (limit : Nat) : Prop
  | refused {trail k t s'} : Part n m s trail (k + 1) t s' → t.enters s' = true →
      s'.depth = s.config.maxCallDepth → limit = s.config.maxCallDepth → Overflow n m s limit
  | host {trail k f call s' place} : Part n m s trail k (.host f call) s' →
      f.Raises ⟨.stackOverflow limit, place⟩ → Overflow n m s limit

lemma Composed.overflow {Q : α → Prop} (hm : Composed .whole Licence.full m Q) {limit : Nat}
    {place : Option Position} (hdepth : s.depth ≤ s.config.maxCallDepth)
    (hr : (m (Evaluator.within n)).run s = .error (.fault ⟨.stackOverflow limit, place⟩) s') :
    Overflow n m s limit := by
  have hs := Realm.admits_whole s
  -- What is claimed of a failure: if it says that there were too many calls, then it is so.
  let P : Halt → Prop := fun e => ∀ limit, e.cause? = some (.stackOverflow limit) → Overflow n m s limit
  have hraw : ∀ e : Halt, e.Raw → P e := by
    rintro e (_ | _ | ⟨hcause⟩) limit heq
    · cases heq
    · cases heq
    · cases heq
      exact absurd hcause id
  have hpart : ∀ {trail k t s' e s₁}, Part n m s trail k t s' →
      ((Evaluator.within k).perform t).run s' = .error e s₁ → P e := by
    refine fun hp hfail => Part.failing hm hs (P := P) nofun ?_ ?_ ?_ hp hfail
    · intro trail k t s' e hp _ hraise
      cases hraise with
      | raw hr => exact hraw e hr
      | @host fault hf =>
        obtain ⟨cause, place⟩ := fault
        obtain ⟨f, call, rfl, hraises⟩ := hf
        rintro limit heq
        cases heq
        exact .host hp hraises
    · rintro trail k t s' hp henters hle limit heq
      have hstand := hp.standing hm hs
      have hconfig := hstand.config
      have hdle := hstand.depth_le hdepth
      cases heq
      rw [hconfig] at hle ⊢
      exact .refused hp henters (Nat.le_antisymm hdle hle) rfl
    · intro trail k t s' e e' _ _ _ hP hpass limit heq
      exact hP limit (hpass.cause ▸ heq)
  cases hm.origin (Evaluator.within_keeps n .whole) hs hr with
  | raised hraise hpass =>
    cases hraise with
    | raw hr => exact hraw _ hr limit (hpass.cause ▸ rfl)
    | host hf => exact absurd hf id
  | answer ha hans hpass => exact hpart (.asked ha) hans limit (hpass.cause ▸ rfl)

/-- A part that fails because of too many calls lets the run fail in the same way, unless a function of the
host on the way handles this. -/
lemma Part.overflows {Q : α → Prop} {trail : List Task} {k : Nat} {t : Task} {limit : Nat}
    {place : Option Position} {s₁ : State} (hm : Composed .whole Licence.full m Q)
    (hpart : Part n m s trail k t s')
    (hr : ((Evaluator.within k).perform t).run s' = .error (.fault ⟨.stackOverflow limit, place⟩) s₁) :
    (∃ place s₂, (m (Evaluator.within n)).run s = .error (.fault ⟨.stackOverflow limit, place⟩) s₂) ∨
      ∃ f call, .host f call ∈ trail ∧ f.Handles (.stackOverflow limit) := by
  refine (hpart.fails_or_handled hm (Realm.admits_whole s) hr).imp_left ?_
  -- On its way out the fault may get a place, but the cause stays.
  rintro ⟨e, s₂, hrun, hbecomes⟩
  have hcause := hbecomes.cause
  cases e with
  | exhausted => cases hcause
  | fault f =>
    obtain ⟨cause, place⟩ := f
    cases hcause
    exact ⟨place, s₂, hrun⟩

/-- The calls of a run are counted exactly. -/
structure CallsCounted (n : Nat) (m : Evaluator → Exec α) (s : State) : Prop where
  /-- However the run ends, the number of active calls is what it was. -/
  restored : ((m (Evaluator.within n)).after s).depth = s.depth
  /-- Inside of the run there are as many more as there are calls on the way, never too many, and
  every part gives them back. -/
  counted : ∀ trail k t s', Part n m s trail k t s' →
    s'.depth = s.depth + trail.countP Task.isCall ∧ s'.depth ≤ s.config.maxCallDepth ∧
      (((Evaluator.within k).perform t).after s').depth = s'.depth
  /-- A call for which there is no room is refused, which ends the run unless a function of the host on the
  way handles this. -/
  refused : ∀ trail k t s', Part n m s trail (k + 1) t s' → t.enters s' = true →
    s'.depth = s.config.maxCallDepth →
    (∃ s₁, ((Evaluator.within (k + 1)).perform t).run s' =
      .error (.fault ⟨.stackOverflow s.config.maxCallDepth, none⟩) s₁) ∧
    ((∃ place s₁, (m (Evaluator.within n)).run s =
      .error (.fault ⟨.stackOverflow s.config.maxCallDepth, place⟩) s₁) ∨
      ∃ f call, .host f call ∈ trail ∧ f.Handles (.stackOverflow s.config.maxCallDepth))
  /-- There is no other reason to say that there are too many calls, except in the host. -/
  overflow : ∀ limit place s₁,
    (m (Evaluator.within n)).run s = .error (.fault ⟨.stackOverflow limit, place⟩) s₁ →
    Overflow n m s limit
  /-- Nor is there for a part of the run, to which the host may have called back. -/
  overflowInside : ∀ trail k t s', Part n m s trail k t s' → ∀ limit place s₁,
    ((Evaluator.within k).perform t).run s' = .error (.fault ⟨.stackOverflow limit, place⟩) s₁ →
    Overflow k (fun ev => ev.perform t) s' limit

/-- **Call depth.**  Whatever a host asks for, and whatever the functions of the host do that are called
meanwhile, the calls are counted exactly. -/
theorem call_depth_is_exact (n : Nat) (hm : Entry m)
    (hdepth : s.depth ≤ s.config.maxCallDepth) : CallsCounted n m s := by
  have hcomposed := hm.composed (W := Realm.whole) rfl
  have hs := Realm.admits_whole s
  refine ⟨hcomposed.depth_after, ?_, ?_, fun _ _ _ hr => hcomposed.overflow hdepth hr, ?_⟩
  · intro trail k t s' hpart
    have hstand := hpart.standing hcomposed hs
    exact ⟨hstand.depth, hstand.depth_le hdepth, t.depth_after k s'⟩
  · intro trail k t s' hpart henters hfull
    have hstand := hpart.standing hcomposed hs
    have hle : s'.config.maxCallDepth ≤ s'.depth := by simp [hstand.config, hfull]
    obtain ⟨s₀, hrefused⟩ := Task.run_of_refused (k := k) henters hle
    rw [hstand.config] at hrefused
    exact ⟨⟨s₀, hrefused⟩, hpart.overflows hcomposed hrefused⟩
  · intro trail k t s' hpart limit place s₁ hr
    have hstand := hpart.standing hcomposed hs
    refine t.composed.overflow ?_ hr
    rw [hstand.config]
    exact hstand.depth_le hdepth

/-- A script with a function that calls itself without end, by the way of a function of the host. -/
def endlessScript : List Stmt :=
  let call := Expr.ofForm (.call (.ofForm (.variable "call")) [.ofForm (.variable "f")])
  [⟨.start, .function (.named "f" [] [⟨.start, .expr call⟩])⟩, ⟨.start, .expr call⟩]

/-- An interpreter that allows for one call at a time, with a function of the host that calls back. -/
def shallowState (body : HostBody) : State where
  config := { maxCallDepth := 1 }
  scopes := #[Scope.declare {} "call" .function (.function ⟨0⟩)]
  heap := { functions := #[.host ⟨"call", some 1, body⟩] }

/-- Whether a computation fails since there would be more calls than `limit`. -/
def Exec.overflows (x : Exec α) (s : State) (limit : Nat) : Bool :=
  match x.run s with
  | .error (.fault ⟨.stackOverflow limit', _⟩) _ => limit' = limit
  | _ => false

lemma Exec.exists_run_of_overflows {x : Exec α} {limit : Nat} (h : x.overflows s limit = true) :
    ∃ place s', x.run s = .error (.fault ⟨.stackOverflow limit, place⟩) s' := by
  unfold Exec.overflows at h
  split at h
  next limit' place s' hrun =>
    cases of_decide_eq_true h
    exact ⟨place, s', hrun⟩
  next => cases h

/-- The second call is refused.  If the function of the host hands this on, then the script fails, and if
not, then it ends normally; either way the first call is given back. -/
theorem call_depth_is_exact_endless :
    let run (ev : Evaluator) := Interpreter.run ev endlessScript
    Overflow 16 run (shallowState .apply) 1 ∧
      ((run (Evaluator.within 16)).after (shallowState .apply)).depth = 0 ∧
      (∃ v s', (run (Evaluator.within 16)).run (shallowState .attempt) = .ok v s') ∧
      ((run (Evaluator.within 16)).after (shallowState .attempt)).depth = 0 := by
  intro run
  have happly := call_depth_is_exact 16 (.run endlessScript) (s := shallowState .apply) (by decide)
  have hattempt := call_depth_is_exact 16 (.run endlessScript) (s := shallowState .attempt) (by decide)
  refine ⟨?_, happly.restored, ?_, hattempt.restored⟩
  · have hoverflows : (run (Evaluator.within 16)).overflows (shallowState .apply) 1 = true := by
      decide +kernel
    obtain ⟨place, s', hrun⟩ := Exec.exists_run_of_overflows hoverflows
    exact happly.overflow 1 place s' hrun
  · obtain ⟨v, s', hrun, -⟩ := Exec.exists_run_of_gives (m := run (Evaluator.within 16))
      (s := shallowState .attempt) (P := fun _ _ => True) (by decide +kernel)
    exact ⟨v, s', hrun⟩

end ScriptLang
