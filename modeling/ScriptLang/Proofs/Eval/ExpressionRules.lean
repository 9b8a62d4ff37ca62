/-
Evaluating expressions and assigning to them follow every regime.

The step of an expression evaluates its operands, and it may assign to them again.  A class expression
registers the class first, and then computes the values of the fields of the class itself; whatever is
done in between, the class stays the one that was registered.
-/
import ScriptLang.Proofs.Eval.ValueRules

namespace ScriptLang

variable {α β : Type}

/-- An operation on numbers and texts gives a number or a text. -/
lemma Arithmetic.ne_classRef {op : Arithmetic} {h : Heap} {left right v : Value}
    (hv : op.apply h left right = .ok v) : ∀ id, v ≠ .classRef id := by
  unfold Arithmetic.apply at hv
  split at hv
  · cases hv
    exact nofun
  · split at hv
    · cases hv
      exact nofun
    · cases hv

lemma Comparison.ne_classRef {op : Comparison} {left right v : Value}
    (hv : op.apply left right = .ok v) : ∀ id, v ≠ .classRef id := by
  unfold Comparison.apply at hv
  split at hv
  · cases hv
    exact nofun
  · cases hv

namespace Obeys

variable {R : Regime} {n : Nat} {t : Task} {s₀ s : State} {Q : α → State → Prop} {c : Context}

/-! ## Operators -/

section Operators

variable {operand left right first second third : Expr}

lemma update (he : t.Evaluates s₀ c operand) (ha : t.Assigns c operand) (op : String)
    (delta : Float) :
    Obeys R n t s₀ (fun ev => ev.update c op operand delta) s fun r s' =>
      R.Sound r.1 s' ∧ R.Sound r.2 s' := by
  refine .bind (evaluate he) fun v s' _ _ => ?_
  cases v with
  | number x =>
    exact .bind (assign ha (Bounds.sound_of_ne nofun)) fun _ _ _ _ =>
      .pure ⟨Bounds.sound_of_ne nofun, Bounds.sound_of_ne nofun⟩
  | _ => exact .fail

/-- An operator of the host follows the regime if it refers to classes that may be used. -/
lemma applyCode {operands : List Expr} (he : ∀ e ∈ operands, t.Evaluates s₀ c e)
    (ha : ∀ e ∈ operands, t.Assigns c e) {code : OperatorCode operands.length}
    (hbrings : ∀ id, code.Brings id → R.Knows s.registry id) :
    Obeys R n t s₀ (fun ev => ev.applyCode c operands code) s R.Sound := by
  have hsound : ∀ {code : OperatorCode operands.length} {s},
      (∀ id, code.Brings id → R.Knows s.registry id) → ∀ v ∈ code.handed, R.Sound v s := by
    rintro code s h v hv id rfl
    exact h id (.here hv)
  -- A value that comes up on the way may be used, and so may what the operator brings in.
  have hnext : ∀ {next : OperatorCode operands.length} {code : OperatorCode operands.length} {v s s'},
      (∀ id, code.Brings id → R.Knows s.registry id) →
      (∀ id, v ≠ .classRef id → next.Brings id → code.Brings id) → R.Kept s s' → R.Sound v s' →
      ∀ id, next.Brings id → R.Knows s'.registry id := by
    intro next code v s s' h hlater hkept hv id hid
    by_cases hid' : v = .classRef id
    · exact hv id hid'
    · exact R.knows hkept (h id (hlater id hid' hid))
  induction code generalizing s with
  | give value => exact .pure (hsound hbrings value List.mem_cons_self)
  | fail cause ordinary => exact .fail
  | evaluate operand next ih =>
    refine .bind (evaluate (he _ (List.get_mem operands operand))) fun v s' hkept hv => ih v ?_
    exact hnext hbrings (fun id => .evaluated) hkept hv
  | assign operand value next ih =>
    refine .bind (assign (ha _ (List.get_mem operands operand)) (hsound hbrings value List.mem_cons_self))
      fun _ s' hkept _ => ih fun id hid => R.knows hkept (hbrings id (.assigned hid))
  | newArray items next ih =>
    refine .bind (newArray (hsound hbrings)) fun v s' hkept hv => ih v ?_
    exact hnext hbrings (fun id => .array) hkept hv
  | newObject properties next ih =>
    refine .bind (newObject fun p hp => hsound hbrings p.2 (List.mem_map_of_mem hp))
      fun v s' hkept hv => ih v ?_
    exact hnext hbrings (fun id => .object) hkept hv
  | display value next ih =>
    refine .read (b := s.heap.display value) rfl (ih _ fun id hid => hbrings id (.displayed hid))

lemma applyPre (he : t.Evaluates s₀ c operand) (ha : t.Assigns c operand) {op : PreOperator}
    (hop : ∀ code, op = .ofHost code → ∀ id, code.Brings id → R.Knows s.registry id) :
    Obeys R n t s₀ (fun ev => ev.applyPre c operand op) s R.Sound := by
  cases op with
  | negate | plus | complement =>
    refine .bind (evaluate he) fun v _ _ _ => ?_
    cases v with
    | number x => exact .pure (Bounds.sound_of_ne nofun)
    | _ => exact .fail
  | not => exact .bind (evaluate he) fun _ _ _ _ => .pure (Bounds.sound_of_ne nofun)
  | increment | decrement => exact .bind (update he ha _ _) fun _ _ _ h => .pure h.2
  | ofHost code =>
    have he : ∀ e ∈ [operand], t.Evaluates s₀ c e := by simpa using he
    exact applyCode he (by simpa using ha) (hop code rfl)

lemma applyPost (he : t.Evaluates s₀ c operand) (ha : t.Assigns c operand) {op : PostOperator}
    (hop : ∀ code, op = .ofHost code → ∀ id, code.Brings id → R.Knows s.registry id) :
    Obeys R n t s₀ (fun ev => ev.applyPost c operand op) s R.Sound := by
  cases op with
  | increment | decrement => exact .bind (update he ha _ _) fun _ _ _ h => .pure h.1
  | ofHost code =>
    have he : ∀ e ∈ [operand], t.Evaluates s₀ c e := by simpa using he
    exact applyCode he (by simpa using ha) (hop code rfl)

lemma compute (op : Arithmetic) (left right : Value) :
    Obeys R n t s₀ (fun _ => Evaluator.compute op left right) s R.Sound :=
  .read (b := s) rfl (ofExcept fun _ hv => Bounds.sound_of_ne (Arithmetic.ne_classRef hv))

/-- Operators that evaluate both operands before anything else. -/
lemma evaluateBoth (hl : t.Evaluates s₀ c left) (hr : t.Evaluates s₀ c right)
    {k : Value → Value → Evaluator → Exec α}
    (h : ∀ a b s', R.Sound a s' → R.Sound b s' → Obeys R n t s₀ (k a b) s' Q) :
    Obeys R n t s₀ (fun ev => do
      let a ← ev.evaluate c left
      let b ← ev.evaluate c right
      k a b ev) s Q :=
  .bind (evaluate hl) fun a _ _ ha => .bind (evaluate hr) fun b s' hkept hb =>
    h a b s' (R.sound_of_kept hkept ha) hb

/-- Operators whose value goes to an operand. -/
lemma assignValue (ha : t.Assigns c left) {v : Value} (hv : R.Sound v s) :
    Obeys R n t s₀ (fun ev => do
      ev.assign c left v
      return v) s R.Sound :=
  .bind (assign ha hv) fun _ _ hkept _ => .pure (R.sound_of_kept hkept hv)

lemma applyBinary (hl : t.Evaluates s₀ c left) (hr : t.Evaluates s₀ c right)
    (ha : t.Assigns c left) (ha' : t.Assigns c right) {op : BinaryOperator}
    (hop : ∀ code, op = .ofHost code → ∀ id, code.Brings id → R.Knows s.registry id) :
    Obeys R n t s₀ (fun ev => ev.applyBinary c left right op) s R.Sound := by
  cases op with
  | arithmetic op => exact evaluateBoth hl hr fun a b _ _ _ => compute op a b
  | arithmeticAssign op =>
    exact evaluateBoth hl hr fun a b _ _ _ => .bind (compute op a b) fun _ _ _ hv => assignValue ha hv
  | comparison op =>
    exact evaluateBoth hl hr fun a b _ _ _ =>
      ofExcept fun _ hv => Bounds.sound_of_ne (Comparison.ne_classRef hv)
  | equal | notEqual =>
    exact evaluateBoth hl hr fun _ _ _ _ _ => .pure (Bounds.sound_of_ne nofun)
  | assign => exact .bind (evaluate hr) fun _ _ _ hv => assignValue ha hv
  | shortCircuit op =>
    exact .bind (evaluate hl) fun _ _ _ hv => .ite (fun _ => evaluate hr) fun _ => .pure hv
  | shortCircuitAssign op =>
    refine .bind (evaluate hl) fun _ _ _ hv => .ite (fun _ => ?_) fun _ => .pure hv
    exact .bind (evaluate hr) fun _ _ _ hw => assignValue ha hw
  | ofHost code =>
    have he : ∀ e ∈ [left, right], t.Evaluates s₀ c e := by simp [hl, hr]
    exact applyCode he (by simp [ha, ha']) (hop code rfl)

lemma applyTernary (he : ∀ e ∈ [first, second, third], t.Evaluates s₀ c e)
    (ha : ∀ e ∈ [first, second, third], t.Assigns c e) {op : TernaryOperator}
    (hop : ∀ code, op = .ofHost code → ∀ id, code.Brings id → R.Knows s.registry id) :
    Obeys R n t s₀ (fun ev => ev.applyTernary c first second third op) s R.Sound := by
  cases op with
  | conditional =>
    refine .bind (evaluate (he first (by simp))) fun _ _ _ _ => ?_
    exact .ite (fun _ => evaluate (he second (by simp))) fun _ => evaluate (he third (by simp))
  | ofHost code => exact applyCode he ha (hop code rfl)

/-- The meaning of a symbol is what the table says. -/
lemma meaning_bind {γ : Type} {table : OperatorTable → Table γ} {op : String}
    {k : γ → Evaluator → Exec Value}
    (hk : ∀ m, (table s.services.operators).get? op = some m → R.Good s →
      Obeys R n t s₀ (k m) s R.Sound) :
    Obeys R n t s₀ (fun ev => Evaluator.meaning table op >>= fun m => k m ev) s R.Sound := by
  refine .inside fun hs => ?_
  cases hop : (table s.services.operators).get? op with
  | some m =>
    refine .read (b := m) ?_ (hk m hop (R.good_of_inside hs))
    simp [Evaluator.meaning, hop]
  | none =>
    refine .failed (f := ⟨.unknownOperator op, none⟩) ?_
    simp only [Evaluator.meaning, EStateM.run_bind, EStateM.run_get, hop]
    rfl

lemma unary (he : t.Evaluates s₀ c operand) (ha : t.Assigns c operand) (op : String)
    (fixity : Fixity) : Obeys R n t s₀ (fun ev => ev.unary c op fixity operand) s R.Sound := by
  cases fixity with
  | before =>
    refine meaning_bind fun m hm hs => applyPre he ha fun code hcode id hid => ?_
    exact R.operated hs (.pre (hcode ▸ hm) hid)
  | after =>
    refine meaning_bind fun m hm hs => applyPost he ha fun code hcode id hid => ?_
    exact R.operated hs (.post (hcode ▸ hm) hid)

lemma binary (hl : t.Evaluates s₀ c left) (hr : t.Evaluates s₀ c right) (ha : t.Assigns c left)
    (ha' : t.Assigns c right) (op : String) :
    Obeys R n t s₀ (fun ev => ev.binary c op left right) s R.Sound := by
  refine meaning_bind fun m hm hs => applyBinary hl hr ha ha' fun code hcode id hid => ?_
  exact R.operated hs (.binary (hcode ▸ hm) hid)

lemma ternary (he : ∀ e ∈ [first, second, third], t.Evaluates s₀ c e)
    (ha : ∀ e ∈ [first, second, third], t.Assigns c e) (op : String) :
    Obeys R n t s₀ (fun ev => ev.ternary c op first second third) s R.Sound := by
  refine meaning_bind fun m hm hs => applyTernary he ha fun code hcode id hid => ?_
  exact R.operated hs (.ternary (hcode ▸ hm) hid)

end Operators

/-! ## Classes -/

lemma parentOf {parent : Option Expr} (h : ∀ e ∈ parent, t.Evaluates s₀ c e) :
    Obeys R n t s₀ (fun ev => ev.parentOf c parent) s fun p s' =>
      ∀ id ∈ p, R.Sound (.classRef id) s' := by
  cases parent with
  | none => exact .pure nofun
  | some e =>
    refine .bind (evaluate (h e rfl)) fun v s' _ hv => ?_
    cases v with
    | classRef id =>
      refine .pure fun id' hid => ?_
      cases hid
      exact hv
    | _ => exact .located .fail

lemma addMembers (d : Draft) (ms : List MemberDecl) :
    Obeys R n t s₀ (fun _ => Evaluator.addMembers d ms) s fun draft s' =>
      s' = s ∧ ms.foldlM Draft.add d = .ok draft := by
  induction ms generalizing d with
  | nil => exact .pure ⟨rfl, rfl⟩
  | cons m ms ih =>
    cases hadd : d.add m with
    | error cause =>
      refine .failed (f := Fault.locate ⟨cause, none⟩ m.place) ?_
      rw [hadd]
      rfl
    | ok d' =>
      refine .read (b := d') (by rw [hadd]; rfl) ((ih d').weaken fun draft s' _ h => ⟨h.1, ?_⟩)
      rw [List.foldlM_cons, hadd]
      exact h.2

lemma createClass {decl : ClassDecl} (hdecl : t.MakesClass c decl)
    (hparent : ∀ e ∈ decl.parent, t.Evaluates s₀ c e) :
    Obeys R n t s₀ (fun ev => ev.createClass c decl) s fun id s' => R.Sound (.classRef id) s' := by
  refine .bind (parentOf hparent) fun parent s₁ _ hsound => ?_
  refine .bind (addMembers _ _) fun draft s' _ h => ?_
  obtain ⟨rfl, hdraft⟩ := h
  have hregister : Obeys R n t s₀ (fun _ => Exec.register (draft.finish c)) s' fun id s'' =>
      s''.registry.get? id = some (draft.finish c) := by
    refine .effect rfl (fun hs => R.change hs (.registered hdecl hdraft hsound)) ?_
    exact (Registry.get?_insert _ _ _).trans (if_pos rfl)
  refine .bind hregister fun id s₂ _ hid => .inside fun hs₂ => ?_
  -- From here on the class stays the one that was registered.
  have hmade : ∀ s'', R.Kept s₂ s'' → Made R.Kept t s'' c draft id := fun s'' hkept =>
    ⟨⟨decl, parent, hdecl, hdraft⟩, s₂, hid, hkept⟩
  refine .bind (newMethodContext id none) fun context s₃ hkept₃ hcontext => ?_
  subst hcontext
  refine .bind (.forM (P := fun _ _ => True) _ (fun entry hentry s₄ hkept₄ => ?_)
    fun _ _ _ _ _ => trivial) fun _ s₄ hkept₄ _ => .pure ?_
  · have hkept := R.trans hkept₃ hkept₄
    refine .bind (.ask (.initializer (hmade _ hkept) hentry (R.scopes_of_inside hs₂)))
      fun v s₅ hkept₅ hv => ?_
    exact setStaticField (.staticSetUp (hmade _ (R.trans hkept hkept₅)) hentry hv)
  · have hknown : R.Sound (.classRef id) s₂ := by
      rintro _ ⟨⟩
      exact R.registered (R.good_of_inside hs₂) hid
    exact R.sound_of_kept (R.trans hkept₃ hkept₄) hknown

lemma classValue {id : ClassId} (hid : R.Sound (.classRef id) s) :
    Obeys R n t s₀ (fun _ => Evaluator.classValue id) s R.Sound := by
  refine .read (b := s) rfl (.pure ?_)
  rcases s.services.creator.classValue_from id with heq | hliteral
  · rwa [heq]
  · exact sound_of_isLiteral hliteral

/-! ## Expressions -/

lemma evaluateProperties {properties : List (String × Expr)}
    (h : ∀ p ∈ properties, t.Evaluates s₀ c p.2) :
    Obeys R n t s₀ (fun ev => ev.evaluateProperties c properties) s fun ps s' =>
      ∀ p ∈ ps, R.Sound p.2 s' := by
  induction properties generalizing s with
  | nil => exact .pure (by simp)
  | cons p properties ih =>
    refine .bind (evaluate (h p List.mem_cons_self)) fun v _ _ hv => ?_
    refine .bind (ih fun p' hp' => h p' (List.mem_cons_of_mem p hp')) fun ps _ hkept hps => .pure ?_
    intro q hq
    rcases List.mem_cons.mp hq with rfl | hq
    · exact R.sound_of_kept hkept hv
    · exact hps q hq

lemma sound_items {items : List Value} (creator : Creator) (h : ∀ v ∈ items, R.Sound v s) :
    ∀ v ∈ creator.items items, R.Sound v s := fun v hv =>
  (creator.items_from items v hv).elim (h v) sound_of_isLiteral

lemma sound_properties {properties : List (String × Value)} (creator : Creator)
    (h : ∀ p ∈ properties, R.Sound p.2 s) : ∀ p ∈ creator.properties properties, R.Sound p.2 s :=
  fun p hp => (creator.properties_from properties p hp).elim (h p) sound_of_isLiteral

lemma evaluateForm (c : Context) (e : Expr) :
    Obeys R n (.evaluate c e) s₀ (fun ev => ev.evaluateForm c e.form) s R.Sound := by
  have he : ∀ e' ∈ e.form.parts, (Task.evaluate c e).Evaluates s₀ c e' := fun _ h => .operand h
  have ha : ∀ e' ∈ e.form.parts, (Task.evaluate c e).Assigns c e' := fun _ h => .operand h
  have hc : (Task.evaluate c e).home = some c := rfl
  cases hform : e.form with
  | literal l => exact .read (b := s) rfl (.pure (sound_literal _ l))
  | «variable» name => exact lookup name
  | this =>
    refine .inside fun hs => ?_
    simp only [Evaluator.evaluateForm]
    cases hthis : c.this with
    | none => exact .fail
    | some v => exact .pure (R.sound_of_mem_values hs (by simp [Task.values, hthis]))
  | super => exact .fail
  | member target name =>
    rw [hform] at he
    refine .ite (fun _ => getSuperMember hc name) fun _ => ?_
    exact .bind (evaluate (he target List.mem_cons_self)) fun v _ _ hv => memberOf hc name hv
  | index target arguments =>
    rw [hform] at he
    have harguments := fun e' h' => he e' (List.mem_cons_of_mem target h')
    refine .ite (fun _ => ?_) fun _ => ?_
    · exact .bind (evaluateAll harguments) fun args _ _ hargs => getSuperItem hc hargs
    · refine .bind (evaluate (he target List.mem_cons_self)) fun v _ _ hv => ?_
      refine .bind (evaluateAll harguments) fun args _ hkept hargs => ?_
      exact getItem hc (R.sound_of_kept hkept hv) hargs
  | call callee arguments =>
    rw [hform] at he
    refine .ite (fun _ => .fail) fun _ => ?_
    refine .bind (evaluate (he callee List.mem_cons_self)) fun f _ _ _ => ?_
    have harguments := fun e' h' => he e' (List.mem_cons_of_mem callee h')
    refine .bind (evaluateAll harguments) fun args _ _ hargs => ?_
    exact callValue hc hargs
  | new target arguments =>
    rw [hform] at he
    refine .bind (evaluate (he target List.mem_cons_self)) fun v _ _ hv => ?_
    refine .bind (evaluateAll fun e' h' => he e' (List.mem_cons_of_mem target h'))
      fun args _ hkept hargs => ?_
    cases v with
    | classRef id => exact .construct (.expression hform) (R.sound_of_kept hkept hv) hargs
    | _ => exact .fail
  | unary op fixity operand =>
    rw [hform] at he ha
    exact unary (he operand List.mem_cons_self) (ha operand List.mem_cons_self) op fixity
  | binary op left right =>
    rw [hform] at he ha
    have hleft : left ∈ (ExprForm.binary op left right).parts := List.mem_cons_self
    have hright : right ∈ (ExprForm.binary op left right).parts := by simp [ExprForm.parts]
    exact binary (he left hleft) (he right hright) (ha left hleft) (ha right hright) op
  | ternary op first second third =>
    rw [hform] at he ha
    exact ternary he ha op
  | array items =>
    rw [hform] at he
    refine .bind (evaluateAll he) fun values s' _ hvalues => .read (b := s') rfl ?_
    exact newArray (sound_items _ hvalues)
  | object properties =>
    rw [hform] at he
    have hproperties : ∀ p ∈ properties, (Task.evaluate c e).Evaluates s₀ c p.2 := fun p hp =>
      he p.2 (List.mem_map_of_mem hp)
    refine .bind (evaluateProperties hproperties) fun values s' _ hvalues => .read (b := s') rfl ?_
    exact newObject (sound_properties _ hvalues)
  | function decl => exact newClosure (.expression hform)
  | classDecl decl =>
    rw [hform] at he
    have hparent : ∀ e' ∈ decl.parent, (Task.evaluate c e).Evaluates s₀ c e' := fun e' h' =>
      he e' (Option.mem_toList.mpr h')
    exact .bind (createClass (.expression hform) hparent) fun id _ _ hid => classValue hid

/-! ## Assignments -/

lemma assignEach {pairs : List (Expr × Value)} (h : ∀ p ∈ pairs, t.Assigns c p.1)
    (hv : ∀ p ∈ pairs, R.Sound p.2 s) :
    Obeys R n t s₀ (fun ev => ev.assignEach c pairs) s fun _ _ => True := by
  induction pairs generalizing s with
  | nil => exact .pure trivial
  | cons p pairs ih =>
    refine .bind (assign (h p List.mem_cons_self) (hv p List.mem_cons_self)) fun _ _ hkept _ => ?_
    refine ih (fun q hq => h q (List.mem_cons_of_mem p hq)) fun q hq => ?_
    exact R.sound_of_kept hkept (hv q (List.mem_cons_of_mem p hq))

lemma destructure {targets : List Expr} (h : ∀ e ∈ targets, t.Assigns c e) (value : Value) :
    Obeys R n t s₀ (fun ev => ev.destructure c targets value) s fun _ _ => True := by
  refine .inside fun hs => .read (b := s) rfl ?_
  cases helements : s.heap.elements? value with
  | none => exact .fail
  | some elements =>
    have hsound : ∀ v ∈ elements, R.Sound v s := by
      intro v hv
      cases value with
      | array id =>
        cases helements
        exact R.stored (R.good_of_inside hs) (.element (Array.mem_toList_iff.mp hv))
      | text content =>
        cases helements
        obtain ⟨ch, -, rfl⟩ := List.mem_map.mp hv
        exact Bounds.sound_of_ne nofun
      | _ => cases helements
    refine .ite (fun _ => .fail) fun _ => assignEach (fun p hp => ?_) fun p hp => ?_
    · exact h p.1 (List.of_mem_zip hp).1
    · exact hsound p.2 (List.of_mem_zip hp).2

lemma assignVariable {e : Expr} {name : String} {v : Value} (he : e.form = .variable name)
    (hv : R.Sound v s) :
    Obeys R n (.assign c e v) s₀ (fun _ => Exec.assignVariable c name v) s fun _ _ => True := by
  have hrun : (Exec.assignVariable c name v).run s =
      (Exec.assignIn name (s.services.naming.keep name) v c.scopes).run s := rfl
  rcases Exec.run_assignIn s name (s.services.naming.keep name) v c.scopes with
    ⟨id, scope, hid, hassign, hx⟩ | ⟨f, hf⟩
  · exact .effect (hrun.trans hx) (fun hs => R.change hs (.assigned he hid hassign hv)) trivial
  · exact .fault (hrun.trans hf)

lemma assignForm (c : Context) (e : Expr) (v : Value) :
    Obeys R n (.assign c e v) s₀ (fun ev => ev.assignForm c v e.form) s fun _ _ => True := by
  refine .inside fun hs => ?_
  have hv : R.Sound v s := R.sound_of_mem_values hs (by simp [Task.values])
  have he : ∀ e' ∈ e.form.parts, (Task.assign c e v).Evaluates s₀ c e' := fun _ h => .target h
  have hc : (Task.assign c e v).home = some c := rfl
  cases hform : e.form with
  | «variable» name => exact assignVariable hform hv
  | member target name =>
    rw [hform] at he
    refine .ite (fun _ => setSuperMember hc name hv) fun _ => ?_
    exact .bind (evaluate (he target List.mem_cons_self)) fun w _ hkept hw =>
      setMember hc name hw (R.sound_of_kept hkept hv)
  | index target arguments =>
    rw [hform] at he
    have harguments := fun e' h' => he e' (List.mem_cons_of_mem target h')
    refine .ite (fun _ => ?_) fun _ => ?_
    · refine .bind (evaluateAll harguments) fun args _ hkept hargs => ?_
      exact setSuperItem hc hargs (R.sound_of_kept hkept hv)
    · refine .bind (evaluate (he target List.mem_cons_self)) fun w _ hkept hw => ?_
      refine .bind (evaluateAll harguments) fun args _ hkept' hargs => ?_
      exact setItem hc (R.sound_of_kept hkept' hw) hargs (R.sound_of_kept (R.trans hkept hkept') hv)
  | array targets =>
    refine destructure (fun e' h' => .element ?_) v
    rw [hform]
    exact h'
  | _ => exact .fail

end Obeys

end ScriptLang
