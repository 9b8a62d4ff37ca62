/-
What a computation asks for, in order.

A computation asks an evaluator for tasks.  Its trace lists them with their states, in the order in which
they are performed (`Traced`).  The trace of two computations one after the other is the first one's,
followed by the second one's if it comes to that.
-/
import ScriptLang.Proofs.Eval.Runs

namespace ScriptLang

variable {α β : Type} {n : Nat}

/-- Tasks, each with the state in which it is performed. -/
abbrev Trace := List (Task × State)

/-- What a computation asks for is what the trace has. -/
def Traced (n : Nat) (m : Evaluator → Exec α) (s : State) (trace : Trace) : Prop :=
  ∀ t s', (Evaluator.within n).Asks m s t s' ↔ (t, s') ∈ trace

/-- To ask for a task is a composed computation. -/
lemma Composed.perform (t : Task) : Composed .whole .full (fun ev => ev.perform t) fun _ => True :=
  .ask trivial (Realm.allows_whole t) fun _ => trivial

namespace Traced

variable {m : Evaluator → Exec α} {k : α → Evaluator → Exec β} {s s₁ : State} {a : α} {e : Halt} {t : Task}
  {trace rest : Trace} {L : Licence} {Q : α → Prop}

lemma silent (m : Exec α) (s : State) : Traced n (fun _ => m) s [] := by
  intro t s'
  simp only [List.not_mem_nil, iff_false]
  exact Evaluator.not_asks_const m

lemma congr {m' : Evaluator → Exec α} {s₀ : State} (h : Traced n m' s₀ trace)
    (heq : ∀ ev, (m ev).run s = (m' ev).run s₀) : Traced n m s trace := by
  intro t s'
  rw [← h t s']
  exact ⟨fun ha => ha.congr_from heq, fun ha => ha.congr_from fun ev => (heq ev).symm⟩

/-- Nothing is asked for if the outcome is the same whatever evaluator there is. -/
lemma of_run_eq {r : EStateM.Result Halt State α} (h : ∀ ev, (m ev).run s = r) : Traced n m s [] :=
  (silent (fun _ => r) s).congr h

lemma bind (hm : Composed .whole L m Q) (h : Traced n m s trace)
    (hr : (m (Evaluator.within n)).run s = .ok a s₁) (hk : Traced n (k a) s₁ rest) :
    Traced n (fun ev => m ev >>= fun a => k a ev) s (trace ++ rest) := by
  have hkeeps := Evaluator.within_keeps n .whole
  have hadmits := Realm.admits_whole s
  intro t s'
  rw [List.mem_append, ← h t s', ← hk t s']
  constructor
  · intro ha
    rcases Evaluator.asks_bind ha with hleft | ⟨b, s₂, hr', hright⟩
    · exact .inl hleft
    · cases hr.symm.trans hr'
      exact .inr hright
  · rintro (hleft | hright)
    · exact hm.asks_bind_left hkeeps hadmits hleft
    · exact hm.asks_bind_after hkeeps hadmits hr hright

/-- After a failure nothing more is asked for. -/
lemma bind_error (hm : Composed .whole L m Q) (h : Traced n m s trace)
    (hr : (m (Evaluator.within n)).run s = .error e s₁) :
    Traced n (fun ev => m ev >>= fun a => k a ev) s trace := by
  intro t s'
  rw [← h t s']
  constructor
  · intro ha
    rcases Evaluator.asks_bind ha with hleft | ⟨b, s₂, hr', -⟩
    · exact hleft
    · cases hr.symm.trans hr'
  · exact hm.asks_bind_left (Evaluator.within_keeps n .whole) (Realm.admits_whole s)

lemma located {p : Position} (hm : Composed .whole L m Q) (h : Traced n m s trace) :
    Traced n (fun ev => Exec.located p (m ev)) s trace := by
  intro t s'
  rw [← h t s']
  exact ⟨Evaluator.asks_located, hm.asks_located (Evaluator.within_keeps n .whole) (Realm.admits_whole s)⟩

lemma perform (t : Task) (s : State) : Traced n (fun ev => ev.perform t) s [(t, s)] := by
  intro t' s'
  simp only [List.mem_singleton, Prod.mk.injEq]
  constructor
  · exact Evaluator.asks_perform
  · rintro ⟨rfl, rfl⟩
    exact Evaluator.asks_perform_self

section First

variable {k : t.Answer → Evaluator → Exec β} {a : t.Answer}

lemma perform_bind (hr : ((Evaluator.within n).perform t).run s = .ok a s₁)
    (hk : Traced n (k a) s₁ rest) :
    Traced n (fun ev => ev.perform t >>= fun a => k a ev) s ((t, s) :: rest) :=
  .bind (.perform t) (.perform t s) hr hk

lemma perform_bind_error (hr : ((Evaluator.within n).perform t).run s = .error e s₁) :
    Traced n (fun ev => ev.perform t >>= fun a => k a ev) s [(t, s)] :=
  .bind_error (.perform t) (.perform t s) hr

end First

end Traced

end ScriptLang
