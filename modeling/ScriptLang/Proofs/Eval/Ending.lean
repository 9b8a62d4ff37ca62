/-
How code ends, whatever the bound.

An evaluator with a bound on its steps may reach it before the code ends.  What the code does by itself is
what it does with a bound that is high enough (`Outcome`).  Two pieces of code have the same outcomes if each
of them, with some bound, does what the other one does (`Outcome.of_extended`).

Expressions, targets, statements and lists of statements locate their faults themselves, so whatever stands
around them has nothing left to locate (`Exec.Settles`).
-/
import ScriptLang.Proofs.Eval.Runs
import ScriptLang.Proofs.Eval.Surface

namespace ScriptLang

variable {α β : Type}

/-! ## Outcomes -/

/-- With enough steps at hand `m` has the outcome `r`, which is not that the steps were used up. -/
def Outcome (m : Evaluator → Exec α) (s : State) (r : EStateM.Result Halt State α) : Prop :=
  (∀ s', r ≠ .error .exhausted s') ∧ ∃ n, (m (Evaluator.within n)).run s = r

/-- What does at least as much with some bound has the same outcomes. -/
lemma Outcome.of_extended {m m' : Evaluator → Exec α} {s : State} {r : EStateM.Result Halt State α}
    (h : Outcome m s r)
    (hle : ∀ n, ∃ k, Extended ((m (Evaluator.within n)).run s) ((m' (Evaluator.within k)).run s)) :
    Outcome m' s r := by
  obtain ⟨hdone, n, hr⟩ := h
  obtain ⟨k, heq | ⟨s', hexhausted⟩⟩ := hle n
  · exact ⟨hdone, k, heq.trans hr⟩
  · exact absurd (hr.symm.trans hexhausted) (hdone s')

lemma Outcome.congr {m m' : Evaluator → Exec α} {s : State} {r : EStateM.Result Halt State α}
    (h : ∀ n, (m (Evaluator.within n)).run s = (m' (Evaluator.within n)).run s) :
    Outcome m s r ↔ Outcome m' s r := by
  simp only [Outcome, h]

namespace Evaluator

variable {c : Context}

/-- With no steps left nothing can be done. -/
lemma evaluate_zero_extended (e : Expr) (s : State) (y : EStateM.Result Halt State Value) :
    ScriptLang.Extended (((within 0).evaluate c e).run s) y := .inr ⟨s, rfl⟩

lemma evaluate_extended (n : Nat) (e : Expr) (s : State) :
    ScriptLang.Extended (((within n).evaluate c e).run s) (((within (n + 1)).evaluate c e).run s) :=
  (within_extended_succ n).perform (.evaluate c e) s

lemma assign_extended (n : Nat) (target : Expr) (v : Value) (s : State) :
    ScriptLang.Extended (((within n).assign c target v).run s)
      (((within (n + 1)).assign c target v).run s) :=
  (within_extended_succ n).perform (.assign c target v) s

end Evaluator

/-! ## Faults that have their place -/

namespace Exec

/-- All the failures of a computation have their place, or never get one. -/
def Settles (m : Exec α) : Prop := ∀ s e s', m.run s = .error e s' → e.Settled

namespace Settles

variable {m : Exec α} {k : α → Exec β} {p : Position}

lemma pure (a : α) : Settles (Pure.pure a : Exec α) := by
  intro s e s' hr
  rw [EStateM.run_pure] at hr
  cases hr

lemma bind (hm : m.Settles) (hk : ∀ a, (k a).Settles) : (m >>= k).Settles := by
  intro s e s' hr
  cases h : m.run s with
  | ok a s₁ =>
    rw [run_bind_ok h] at hr
    exact hk a s₁ e s' hr
  | error e₁ s₁ =>
    rw [run_bind_error h] at hr
    cases hr
    exact hm s e s' h

/-- A computation that was located is settled, whatever it was before. -/
lemma located (p : Position) (m : Exec α) : (Exec.located p m).Settles := by
  intro s e s' hr
  cases h : m.run s with
  | ok a s₁ =>
    rw [run_located_of_ok h] at hr
    cases hr
  | error e₁ s₁ =>
    rw [run_located_of_error h] at hr
    cases hr
    exact e₁.settled_locate p

lemma checkCancelled : Settles Exec.checkCancelled := by
  intro s e s' hr
  rw [run_checkCancelled] at hr
  split at hr
  · cases hr
    exact Halt.settled_cancelled
  · cases hr

lemma forM {f : β → Exec Unit} {l : List β} (h : ∀ b ∈ l, (f b).Settles) : (l.forM f).Settles := by
  induction l with
  | nil => exact .pure ()
  | cons b l ih =>
    exact .bind (h b List.mem_cons_self) fun _ => ih fun b' hb' => h b' (List.mem_cons_of_mem b hb')

/-- There is nothing left to locate. -/
lemma located_eq (hm : m.Settles) : Exec.located p m = m := by
  funext s
  show (Exec.located p m).run s = m.run s
  cases h : m.run s with
  | ok a s' => exact run_located_of_ok h
  | error e s' => rw [run_located_of_error h, Halt.locate_of_settled (hm s e s' h)]

/-- Only what comes before the settled part has to be located. -/
lemma located_bind (hk : ∀ a, (k a).Settles) :
    Exec.located p (m >>= k) = Exec.located p m >>= k := by
  rw [Exec.located_bind]
  exact bind_congr fun a => (hk a).located_eq

end Settles

end Exec

namespace Evaluator

variable (n : Nat) (c : Context)

lemma settles_evaluate (e : Expr) : ((within n).evaluate c e).Settles := fun _ _ _ hr =>
  Task.settled_of_isNode (t := .evaluate c e) rfl hr

lemma settles_assign (target : Expr) (v : Value) : ((within n).assign c target v).Settles :=
  fun _ _ _ hr => Task.settled_of_isNode (t := .assign c target v) rfl hr

lemma settles_execute (s : Stmt) : ((within n).execute c s).Settles := fun _ _ _ hr =>
  Task.settled_of_isNode (t := .execute c s) rfl hr

lemma settles_runFrom (body rest : List Stmt) (bound : Nat) :
    ((within n).runFrom c body bound rest).Settles := by
  induction bound generalizing rest with
  | zero =>
    cases rest with
    | nil => exact .pure _
    | cons =>
      rintro s _ _ ⟨⟩
      exact Halt.settled_exhausted
  | succ bound ih =>
    cases rest with
    | nil => exact .pure _
    | cons st rest =>
      refine .bind .checkCancelled fun _ => .bind (settles_execute n c st) fun flow => ?_
      cases flow with
      | next => exact ih rest
      | jumps label =>
        dsimp only
        split
        · exact ih _
        · exact .pure _
      | breaks | continues | returns => exact .pure _

/-- A list locates what its names and labels fail with, and its statements locate the rest. -/
lemma settles_sequence (body : List Stmt) : ((within n).sequence c body).Settles := by
  cases n with
  | zero =>
    rintro s _ _ ⟨⟩
    exact Halt.settled_exhausted
  | succ n => exact .bind (.forM fun st _ => .located st.place _) fun _ => settles_runFrom n c body body _

end Evaluator

end ScriptLang
