/-
Where labels come from.

The labels that code can jump to are those in the scopes of its context up to the call
(`State.sees`).  The scopes of a context are numbered in the order in which they were made
(`Context.Below`).  A list of statements adds its own labels to its scope, and nothing else ever adds a
label to a scope that is already there.
-/
import ScriptLang.Proofs.Eval.Step

namespace ScriptLang

variable {α β : Type}

/-! ## Labels in a list -/

/-- A list has a label if one of its statements declares it. -/
lemma isSome_fromLabel?_iff {label : String} {body : List Stmt} :
    (fromLabel? label body).isSome ↔ ∃ st ∈ body, st.form = .label label := by
  induction body with
  | nil => simp [fromLabel?]
  | cons st body ih =>
    simp only [fromLabel?, List.mem_cons, exists_eq_or_imp]
    split
    · next name hform =>
      split
      · next heq => simp [hform, heq]
      · next hne => simp [hform, hne, ih]
    · next hother =>
      rw [ih]
      refine (or_iff_right ?_).symm
      exact fun hform => hother label hform

/-- What follows a label of a list starts with a statement that declares it. -/
lemma form_of_fromLabel? {label : String} {body target : List Stmt}
    (h : fromLabel? label body = some target) :
    ∃ st rest before, target = st :: rest ∧ st.form = .label label ∧ body = before ++ target := by
  induction body with
  | nil => cases h
  | cons st body ih =>
    simp only [fromLabel?] at h
    have hlater : fromLabel? label body = some target → ∃ st' rest before, target = st' :: rest ∧
        st'.form = .label label ∧ st :: body = before ++ target := by
      intro hrest
      obtain ⟨st', rest, before, htarget, hform, hbody⟩ := ih hrest
      exact ⟨st', rest, st :: before, htarget, hform, by rw [hbody, List.cons_append]⟩
    split at h
    · next name hform =>
      split at h
      · next heq =>
        cases h
        exact ⟨st, body, [], rfl, heq ▸ hform, rfl⟩
      · exact hlater h
    · exact hlater h

/-! ## Labels in a context -/

/-- Whether code in a context can jump to a label. -/
def State.sees (s : State) (c : Context) (label : String) : Bool :=
  c.jumpScopes.any fun id => (s.labelsOf id.index).contains label

lemma Exec.run_canGoto (c : Context) (label : String) (s : State) :
    (canGoto c label).run s = .ok (s.sees c label) s := rfl

/-- The scopes of a context up to the call are numbered from the outside in, below a limit. -/
def Context.Below (limit : Nat) : Context → Prop
  | .block scope _ parent => scope.index < limit ∧ parent.Below scope.index
  | .root scope => scope.index < limit
  | .function scope _ => scope.index < limit
  | .method scope _ _ _ => scope.index < limit

namespace Context

variable {c : Context} {limit limit' : Nat}

lemma Below.mono (h : c.Below limit) (hle : limit ≤ limit') : c.Below limit' := by
  cases c with
  | block => exact ⟨Nat.lt_of_lt_of_le h.1 hle, h.2⟩
  | root | function | method => exact Nat.lt_of_lt_of_le h hle

lemma Below.lt_of_mem {id : ScopeId} (h : c.Below limit) (hid : id ∈ c.jumpScopes) :
    id.index < limit := by
  induction c generalizing limit with
  | block scope flow parent ih =>
    rcases List.mem_cons.mp hid with rfl | hid
    · exact h.1
    · exact Nat.lt_trans (ih h.2 hid) h.1
  | root | function | method =>
    cases List.mem_singleton.mp hid
    exact h

end Context

namespace State

variable {s s' : State} {c : Context} {label : String}

lemma sees_iff : s.sees c label = true ↔ ∃ id ∈ c.jumpScopes, label ∈ s.labelsOf id.index := by
  simp [sees]

/-- What a context sees depends only on the labels of its scopes. -/
lemma sees_congr (h : ∀ id ∈ c.jumpScopes, s'.labelsOf id.index = s.labelsOf id.index) :
    s'.sees c label = s.sees c label := by
  rw [Bool.eq_iff_iff, sees_iff, sees_iff]
  constructor
  · rintro ⟨id, hid, hlabel⟩
    exact ⟨id, hid, h id hid ▸ hlabel⟩
  · rintro ⟨id, hid, hlabel⟩
    exact ⟨id, hid, (h id hid).symm ▸ hlabel⟩

/-- A block sees the labels of its own scope and those that its parent sees. -/
lemma sees_block_iff {scope : ScopeId} {flow : BlockFlow} :
    s.sees (.block scope flow c) label = true ↔
      label ∈ s.labelsOf scope.index ∨ s.sees c label = true := by
  simp [sees, Context.jumpScopes]

lemma labelsOf_opened {index : Nat} (h : index < s.scopes.size) :
    s.opened.labelsOf index = s.labelsOf index := by
  simp [labelsOf, opened, Array.getElem?_push_lt h, h]

/-- A new scope has no labels. -/
lemma labelsOf_opened_size (s : State) : s.opened.labelsOf s.scopes.size = [] := by
  simp [labelsOf, opened]

lemma size_opened (s : State) : s.opened.scopes.size = s.scopes.size + 1 := by
  simp [opened]

/-- A new block sees what its parent sees. -/
lemma sees_opened (hc : c.Below s.scopes.size) (flow : BlockFlow) :
    s.opened.sees (.block ⟨s.scopes.size⟩ flow c) label = s.sees c label := by
  rw [Bool.eq_iff_iff, sees_block_iff, labelsOf_opened_size]
  have hparent : s.opened.sees c label = s.sees c label :=
    sees_congr fun id hid => labelsOf_opened (hc.lt_of_mem hid)
  simp [hparent]

lemma below_opened (hc : c.Below s.scopes.size) (flow : BlockFlow) :
    (Context.block ⟨s.scopes.size⟩ flow c).Below s.opened.scopes.size := by
  rw [size_opened]
  exact ⟨Nat.lt_succ_self _, hc⟩

end State

/-! ## What running code leaves -/

section After

variable {W : Realm} {L : Licence} {Q : α → Prop} {m : Evaluator → Exec α} {self : Evaluator}
  {s s' : State}

/-- However a composed computation ends, it keeps its realm. -/
lemma Composed.kept_after (hm : Composed W L m Q) (hself : self.Keeps W) (hs : W.Admits s) :
    W.Kept s ((m self).after s) := by
  have hleft := hm.left hself hs
  cases hr : (m self).run s with
  | ok a s' =>
    rw [hr] at hleft
    rw [Exec.after_of_ok hr]
    exact hleft.1
  | error e s' =>
    rw [hr] at hleft
    rw [Exec.after_of_error hr]
    exact hleft

lemma Realm.Kept.size_le {floor : Nat} (h : (Realm.above floor).Kept s s') :
    floor ≤ s'.scopes.size :=
  h.admits.floor_le

/-- A computation that keeps the labels of all scopes keeps what is seen. -/
lemma Realm.Kept.sees {c : Context} (h : (Realm.above s.scopes.size).Kept s s')
    (hc : c.Below s.scopes.size) (label : String) : s'.sees c label = s.sees c label :=
  State.sees_congr fun id hid => h.labelsOf id.index (hc.lt_of_mem hid)

end After

/-- Which labels a computation may add: to the scopes that are there, only those of a list and only to
the scope of its context. -/
structure Labelled (c : Context) (body : List Stmt) (s s' : State) : Prop where
  size_le : s.scopes.size ≤ s'.scopes.size
  mem : ∀ index < s.scopes.size, ∀ label ∈ s'.labelsOf index, label ∈ s.labelsOf index ∨
    index = c.scope.index ∧ ∃ st ∈ body, st.form = .label label

namespace Labelled

variable {c : Context} {st : Stmt} {body : List Stmt} {s s' s'' : State}

lemma of_kept (h : (Realm.above s.scopes.size).Kept s s') : Labelled c body s s' where
  size_le := h.size_le
  mem := fun index hi _ hl => .inl (h.labelsOf index hi ▸ hl)

lemma trans (h : Labelled c body s s') (h' : Labelled c body s' s'') : Labelled c body s s'' where
  size_le := Nat.le_trans h.size_le h'.size_le
  mem := by
    intro index hi label hl
    rcases h'.mem index (Nat.lt_of_lt_of_le hi h.size_le) label hl with hl | hnew
    · exact h.mem index hi label hl
    · exact .inr hnew

lemma subset {body' : List Stmt} (h : Labelled c body s s') (hsub : ∀ st ∈ body, st ∈ body') :
    Labelled c body' s s' where
  size_le := h.size_le
  mem := by
    intro index hi label hl
    rcases h.mem index hi label hl with hl | ⟨heq, st, hst, hform⟩
    · exact .inl hl
    · exact .inr ⟨heq, st, hsub st hst, hform⟩

/-- What a context below the limit sees afterwards it saw before, or it is a label of the list. -/
lemma sees (h : Labelled c body s s') {c' : Context} (hc : c'.Below s.scopes.size) {label : String}
    (hsees : s'.sees c' label = true) :
    s.sees c' label = true ∨ c.scope ∈ c'.jumpScopes ∧ (fromLabel? label body).isSome := by
  obtain ⟨id, hid, hl⟩ := State.sees_iff.mp hsees
  rcases h.mem id.index (hc.lt_of_mem hid) label hl with hl | ⟨heq, hlabel⟩
  · exact .inl (State.sees_iff.mpr ⟨id, hid, hl⟩)
  · have hscope : id = c.scope := by
      cases id
      simp_all
    exact .inr ⟨hscope ▸ hid, isSome_fromLabel?_iff.mpr hlabel⟩

/-- Entering what a statement declares adds a label only if the statement is one. -/
lemma hoist (c : Context) (st : Stmt) (s : State) : Labelled c [st] s ((st.hoist c).after s) := by
  by_cases hform : ∃ name, st.form = .label name
  · obtain ⟨name, hform⟩ := hform
    have hhoist : st.hoist c = Exec.declareLabel c name := by simp [Stmt.hoist, hform]
    have hrun : (st.hoist c).run s =
        (Exec.ofExcept ((s.scopes[c.scope.index]?.getD {}).declareLabel name) >>=
          Exec.setScope c.scope).run s := by
      rw [hhoist]
      rfl
    have hafter : (st.hoist c).after s = (Exec.ofExcept
        ((s.scopes[c.scope.index]?.getD {}).declareLabel name) >>= Exec.setScope c.scope).after s := by
      simp only [Exec.after, hrun]
    rw [hafter]
    simp only [Scope.declareLabel]
    split
    · -- The label is there already, and nothing changes.
      exact ⟨Nat.le_refl _, fun _ _ _ hl => .inl hl⟩
    · refine ⟨?_, fun index hi label hl => ?_⟩
      · show s.scopes.size ≤ (s.scopes.setIfInBounds c.scope.index _).size
        simp
      · change label ∈ (((s.scopes.setIfInBounds c.scope.index
          { (s.scopes[c.scope.index]?.getD {}) with
            labels := name :: (s.scopes[c.scope.index]?.getD {}).labels })[index]?).getD {}).labels at hl
        rw [Array.getElem?_setIfInBounds] at hl
        split at hl
        · next heq =>
          subst heq
          simp only [hi, if_true, Option.getD_some, List.mem_cons] at hl
          rcases hl with rfl | hl
          · exact .inr ⟨rfl, st, List.mem_singleton_self st, hform⟩
          · exact .inl hl
        · exact .inl hl
  · have hm : Composed (.above s.scopes.size) .full (fun _ => st.hoist c) fun _ => True :=
      .hoist st fun name hname => absurd ⟨name, hname⟩ hform
    exact of_kept (hm.kept_after (Evaluator.within_keeps 0 _) (Realm.admits_above (Nat.le_refl _)))

/-- Entering what a list declares adds only labels of the list. -/
lemma hoistAll (c : Context) (body : List Stmt) (s : State) :
    Labelled c body s ((hoistAll c body).after s) := by
  induction body generalizing s with
  | nil => exact ⟨Nat.le_refl _, fun _ _ _ hl => .inl hl⟩
  | cons st body ih =>
    have hsplit : ScriptLang.hoistAll c (st :: body) =
        (Exec.located st.place (st.hoist c) >>= fun _ => ScriptLang.hoistAll c body) := rfl
    have hfirst : Labelled c (st :: body) s ((Exec.located st.place (st.hoist c)).after s) := by
      rw [Exec.after_located]
      refine (hoist c st s).subset fun st' hst' => ?_
      rw [List.mem_singleton.mp hst']
      exact List.mem_cons_self
    rw [hsplit]
    cases hr : (Exec.located st.place (st.hoist c)).run s with
    | error e s' =>
      rw [Exec.after_bind_of_error hr]
      rwa [Exec.after_of_error hr] at hfirst
    | ok u s' =>
      rw [Exec.after_bind_of_ok hr]
      rw [Exec.after_of_ok hr] at hfirst
      exact hfirst.trans ((ih s').subset fun st' hst' => List.mem_cons_of_mem st hst')

/-- Running the statements of a list adds no labels to the scopes that are there. -/
lemma runFrom (n : Nat) (c : Context) (body : List Stmt) (bound : Nat) (rest : List Stmt) (s : State) :
    (Realm.above s.scopes.size).Kept s
      (((Evaluator.within n).runFrom c body bound rest).after s) :=
  (Composed.runFrom (L := .full) (fun _ => trivial) c body bound rest).kept_after
    (Evaluator.within_keeps n _) (Realm.admits_above (Nat.le_refl _))

/-- Running a list adds only its own labels. -/
lemma sequence (n : Nat) (c : Context) (body : List Stmt) (s : State) :
    Labelled c body s (((Evaluator.within n).sequence c body).after s) := by
  cases n with
  | zero => exact ⟨Nat.le_refl _, fun _ _ _ hl => .inl hl⟩
  | succ n =>
    have hhoist := hoistAll c body s
    have hstep : (Evaluator.within (n + 1)).sequence c body = (ScriptLang.hoistAll c body >>= fun _ =>
        (Evaluator.within n).runFrom c body (Evaluator.within n).bound body) := rfl
    rw [hstep]
    cases hr : (ScriptLang.hoistAll c body).run s with
    | error e s' =>
      rw [Exec.after_bind_of_error hr]
      rwa [Exec.after_of_error hr] at hhoist
    | ok u s' =>
      rw [Exec.after_bind_of_ok hr]
      rw [Exec.after_of_ok hr] at hhoist
      exact hhoist.trans (of_kept (runFrom n c body _ body s'))

end Labelled

end ScriptLang
