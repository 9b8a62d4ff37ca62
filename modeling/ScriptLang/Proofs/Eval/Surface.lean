/-
Faults surface as they are.

When evaluating, assigning or executing fails in an interpreter without functions of the host other
than those that every script has, then the failure is a cancellation without a place, or it is located
at a place of the code that was running.  A failure that has its place is not changed any more: all the
code around it ends with the same one.
-/
import ScriptLang.Proofs.Eval.Step

namespace ScriptLang

variable {α : Type} {n k : Nat} {m : Evaluator → Exec α} {t : Task} {s s₁ : State} {e : Halt}

/-- Whether a task works on a node of a syntax tree that locates its faults. -/
def Task.isNode : Task → Bool
  | .evaluate _ _ => true
  | .assign _ _ _ => true
  | .execute _ _ => true
  | _ => false

/-- The failures of a run that surface: a cancellation, or a fault that a part of the run located at a
place of its own. -/
inductive Surfaced (n : Nat) (m : Evaluator → Exec α) (s : State) : Halt → Prop
  | exhausted : Surfaced n m s .exhausted
  | cancelled : Surfaced n m s (.fault ⟨.cancelled, none⟩)
  | located {trail k t s' s₁ cause p} : cause ≠ .cancelled → Part n m s trail k t s' →
      ((Evaluator.within k).perform t).run s' = .error (.fault ⟨cause, some p⟩) s₁ →
      t.Marks s' p → Surfaced n m s (.fault ⟨cause, some p⟩)

/-- The failures that occur inside of a run: they surface as they are, or they still need a place. -/
inductive Tracked (n : Nat) (m : Evaluator → Exec α) (s : State) : Halt → Prop
  | surfaced {e : Halt} : Surfaced n m s e → Tracked n m s e
  | bare {cause : Cause} : cause ≠ .cancelled → Tracked n m s (.fault ⟨cause, none⟩)

lemma Surfaced.settled (h : Surfaced n m s e) : e.Settled := by
  cases h with
  | exhausted => trivial
  | cancelled => exact .inl rfl
  | located => exact .inr rfl

lemma Tracked.surfaced_of_settled (h : Tracked n m s e) (hset : e.Settled) : Surfaced n m s e := by
  cases h with
  | surfaced h => exact h
  | bare hcause =>
    rcases hset with hc | hp
    · exact absurd hc hcause
    · cases hp

/-- An effect does not locate its failures. -/
lemma Halt.Raw.tracked (h : e.Raw) : Tracked n m s e := by
  cases h with
  | exhausted => exact .surfaced .exhausted
  | cancelled => exact .surfaced .cancelled
  | ordinary hcause =>
    refine .bare ?_
    rintro rfl
    exact hcause

/-- A node locates its failure, if it has to be. -/
lemma Task.settled_of_isNode (ht : t.isNode)
    (hr : ((Evaluator.within k).perform t).run s = .error e s₁) : e.Settled := by
  have hlocated : ∀ {β : Type} (p : Position) (x : Exec β),
      (Exec.located p x).run s = .error e s₁ → e.Settled := by
    intro β p x hx
    cases hrun : x.run s with
    | ok a s' =>
      rw [Exec.run_located_of_ok hrun] at hx
      cases hx
    | error e' s' =>
      rw [Exec.run_located_of_error hrun] at hx
      cases hx
      exact e'.settled_locate p
  cases k with
  | zero =>
    cases hr
    trivial
  | succ k =>
    cases t with
    | evaluate | assign | execute => exact hlocated _ _ hr
    | _ => cases ht

/-! ## Interpreters without a host -/

namespace Interpreter

/-- The realm of an interpreter that has no functions of the host but those that every script has. -/
def plainRealm : Realm := ⟨(· ∈ builtins), 0⟩

lemma run_prepare_of_start {config : Config} {services : Services}
    (h : start config services = .ok s) : prepare.run { config, services } = .ok () s := by
  unfold start at h
  split at h
  · next hr =>
    cases h
    exact hr
  · cases h

end Interpreter

/-! ## Failures of a run -/

section Plain

variable {L : Licence} {Q : α → Prop} (hm : Composed Interpreter.plainRealm L m Q)
  (hs : s.Meets (· ∈ Interpreter.builtins))

include hm hs

/-- The failures of all parts of a run are tracked. -/
lemma Part.tracked {trail : List Task} {s' : State} (hpart : Part n m s trail k t s')
    (hr : ((Evaluator.within k).perform t).run s' = .error e s₁) : Tracked n m s e := by
  have hadmits : Interpreter.plainRealm.Admits s := ⟨hs, Nat.zero_le _⟩
  refine Part.failing hm hadmits (.surfaced .exhausted) ?_ ?_ ?_ hpart hr
  · intro trail k t s' e _ hallowed hraise
    cases hraise with
    | raw hr => exact hr.tracked
    | host hf =>
      obtain ⟨f, call, rfl, hraises⟩ := hf
      obtain ⟨reason, rfl⟩ := Interpreter.raises_of_mem_builtins hallowed hraises
      exact .bare nofun
  · exact fun _ _ _ => .bare nofun
  · intro trail k t s' e e' s₁ hpart hr htracked hpass
    cases htracked with
    | surfaced h =>
      rw [hpass.eq_of_settled h.settled]
      exact .surfaced h
    | bare hcause =>
      rcases hpass with rfl | ⟨p, hmarks, rfl⟩
      · exact .bare hcause
      · -- This is where the fault gets its place.
        have hlocate : (Halt.fault ⟨_, none⟩).locate p = .fault ⟨_, some p⟩ :=
          congrArg Halt.fault (Fault.locate_bare hcause p)
        rw [hlocate] at hr ⊢
        exact .surfaced (.located hcause hpart hr hmarks)

/-- A node that is part of a run fails with what surfaces. -/
lemma Part.surfaced {trail : List Task} {s' : State} (hpart : Part n m s trail k t s')
    (ht : t.isNode) (hr : ((Evaluator.within k).perform t).run s' = .error e s₁) :
    Surfaced n m s e :=
  (hpart.tracked hm hs hr).surfaced_of_settled (Task.settled_of_isNode ht hr)

/-- A cancellation never has a place. -/
lemma Composed.place_of_cancelled (hL : ∀ f, ¬L.faults f) {place : Option Position}
    (hr : (m (Evaluator.within n)).run s = .error (.fault ⟨.cancelled, place⟩) s₁) :
    place = none := by
  have hplace : ∀ e, Tracked n m s e → L.Passes e (.fault ⟨.cancelled, place⟩) → place = none := by
    intro e htracked hpass
    have hcause := hpass.becomes.cause
    cases htracked with
    | bare hne => exact absurd (Option.some.inj hcause).symm hne
    | surfaced h =>
      have heq := hpass.eq_of_settled h.settled
      cases h with
      | exhausted => cases heq
      | cancelled =>
        cases heq
        rfl
      | located hne => exact absurd (Option.some.inj hcause).symm hne
  cases hm.origin (Evaluator.within_keeps n _) ⟨hs, Nat.zero_le _⟩ hr with
  | raised hraise hpass =>
    cases hraise with
    | raw hraw => exact hplace _ hraw.tracked hpass
    | host hf => exact absurd hf (hL _)
  | answer ha hans hpass => exact hplace _ (Part.tracked hm hs (.asked ha) hans) hpass

end Plain

/-- What is said of the failures in a run. -/
structure FaultsPass (n : Nat) (m : Evaluator → Exec α) (s : State) : Prop where
  /-- The failure of a node is a cancellation, or it is located at a place of the running code. -/
  located : ∀ trail k t s' e s₁, Part n m s trail k t s' → t.isNode →
    ((Evaluator.within k).perform t).run s' = .error e s₁ → Surfaced n m s e
  /-- What has its place, or never gets one, ends the run as it is. -/
  unchanged : ∀ trail k t s' e s₁, Part n m s trail k t s' →
    ((Evaluator.within k).perform t).run s' = .error e s₁ → e.Settled →
    ∃ s₂, (m (Evaluator.within n)).run s = .error e s₂
  /-- A cancellation reaches the outside without a place. -/
  cancelled : ∀ place s₁,
    (m (Evaluator.within n)).run s = .error (.fault ⟨.cancelled, place⟩) s₁ → place = none

/-- **Faults surface as they are.**  A node fails with a cancellation or with a fault located in the
code that it ran, and whatever a host asks for, failures pass through it unchanged. -/
theorem faults_surface_unchanged (n : Nat) (hs : s.Meets (· ∈ Interpreter.builtins)) :
    (∀ t : Task, t.isNode → ∀ e s₁, ((Evaluator.within n).perform t).run s = .error e s₁ →
      Surfaced n (fun ev => ev.perform t) s e) ∧
    ∀ (β : Type) (m : Evaluator → Exec β), Entry m → FaultsPass n m s := by
  constructor
  · intro t ht e s₁ hr
    have hask : Composed Interpreter.plainRealm .full (fun ev => ev.perform t) fun _ => True := by
      refine .ask trivial ?_ fun _ => trivial
      cases t with
      | evaluate | assign | execute => trivial
      | _ => cases ht
    exact Part.surfaced hask hs (.asked Evaluator.asks_perform_self) ht hr
  · intro β m hm
    have hcomposed := hm.composed (W := Interpreter.plainRealm) rfl
    refine ⟨fun _ _ _ _ _ _ hpart ht hr => hpart.surfaced hcomposed hs ht hr, ?_, ?_⟩
    · intro trail k t s' e s₁ hpart hr hset
      obtain ⟨e', s₂, hrun, hbecomes⟩ := (hpart.standing hcomposed ⟨hs, Nat.zero_le _⟩).fails_of_relays
        (fun _ => Interpreter.relays_of_mem_builtins) (Licence.misses_full e) hr
      rw [hbecomes.eq_of_settled hset] at hrun
      exact ⟨s₂, hrun⟩
    · exact fun place s₁ hr => hcomposed.place_of_cancelled hs (fun _ h => h) hr

/-- The statement `x`, where nothing of this name is declared. -/
def undeclaredName : Stmt := ⟨⟨1, 1⟩, .expr ⟨⟨1, 5⟩, .variable "x"⟩⟩

/-- An interpreter with the functions that every script has. -/
def plainState : State where
  scopes := #[{}]
  heap := { functions := (Interpreter.builtins.map Function.host).toArray }

/-- The fault is located at the name, and the statement around it ends with it. -/
theorem faults_surface_unchanged_undeclared :
    Surfaced 3 (fun ev => ev.perform (.execute Interpreter.root undeclaredName)) plainState
      (.fault ⟨.undefined "x", some ⟨1, 5⟩⟩) := by
  have hmeets : plainState.Meets (· ∈ Interpreter.builtins) := by
    refine ⟨fun id f hf => ?_, fun _ _ hc => by simp [plainState, Registry.get?] at hc⟩
    have hmem : f ∈ Interpreter.builtins.map Function.host := by
      refine List.mem_of_getElem? (i := id.index) ?_
      simpa [plainState, Heap.function?] using hf
    obtain ⟨g, hg, rfl⟩ := List.mem_map.mp hmem
    exact hg
  exact (faults_surface_unchanged 3 hmeets).1 _ rfl _ _ rfl

end ScriptLang
