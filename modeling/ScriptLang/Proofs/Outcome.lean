/-
Outcomes of computations that carry a state and may fail.
-/
import Mathlib.Tactic.Common

namespace ScriptLang

variable {ε S α β : Type} {x : EStateM ε S α} {f : α → EStateM ε S β} {s s' s'' : S} {a : α} {b : β}
  {e : ε}

lemma run_bind_ok (h : x.run s = .ok a s') : (x >>= f).run s = (f a).run s' := by
  rw [EStateM.run_bind, h]

lemma run_bind_error (h : x.run s = .error e s') : (x >>= f).run s = .error e s' := by
  rw [EStateM.run_bind, h]

/-- Two computations one after the other give a result if both of them do. -/
lemma run_bind_eq_ok :
    (x >>= f).run s = .ok b s'' ↔ ∃ a s', x.run s = .ok a s' ∧ (f a).run s' = .ok b s'' := by
  cases h : x.run s with
  | ok a s' =>
    rw [run_bind_ok h]
    constructor
    · intro hf
      exact ⟨a, s', rfl, hf⟩
    · rintro ⟨_, _, ⟨⟩, hf⟩
      exact hf
  | error e s' => simp [run_bind_error h]

/-- Computations with the same outcomes, followed by computations with the same outcomes. -/
lemma run_bind_congr {x' : EStateM ε S α} {f' : α → EStateM ε S β} (hx : x.run s = x'.run s)
    (hf : ∀ a s', x.run s = .ok a s' → (f a).run s' = (f' a).run s') :
    (x >>= f).run s = (x' >>= f').run s := by
  cases h : x.run s with
  | ok a s' =>
    rw [run_bind_ok h, run_bind_ok (hx.symm.trans h)]
    exact hf a s' h
  | error e s' => rw [run_bind_error h, run_bind_error (hx.symm.trans h)]

end ScriptLang
