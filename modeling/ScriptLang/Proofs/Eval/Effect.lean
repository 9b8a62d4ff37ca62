/-
What code can do to the state on its own.

Apart from asking for tasks, running code has a fixed number of effects: it makes scopes, binds names,
adds to the heap and changes it, registers classes, prints.  This file lists them (`Effect`) and says
once what all of them leave alone.

A realm (`Realm`) says what a state may hold, and up to which number its scopes are out of reach for
new labels.  Every effect keeps a realm: the state stays inside, the options and the number of active
calls stay as they are, and so do the labels of the scopes below the floor (`Realm.Kept`).
-/
import ScriptLang.Proofs.Eval.Asking

namespace ScriptLang

variable {α : Type}

/-! ## The functions of the host that a state holds -/

section Meets

variable (P : HostFunction → Prop)

/-- A method that is a function of the host satisfies `P`. -/
def Method.Meets : Method → Prop
  | .script _ => True
  | .host f => P f

/-- The functions of the host behind a member satisfy `P`. -/
def Member.Meets : Member → Prop
  | .method m => m.Meets P
  | .property getter setter => (∀ m ∈ getter, m.Meets P) ∧ ∀ m ∈ setter, m.Meets P
  | .indexer getter setter => (∀ m ∈ getter, m.Meets P) ∧ ∀ m ∈ setter, m.Meets P

/-- A constructor that is a function of the host satisfies `P`. -/
def Origin.Meets : Origin → Prop
  | .script _ _ => True
  | .host constructor => ∀ f ∈ constructor, P f

/-- The functions of the host in a class satisfy `P`. -/
structure Class.Meets (cls : Class) : Prop where
  origin : cls.origin.Meets P
  member : ∀ side key m, (cls.members side).get? key = some m → m.Meets P

/-- A function that leads to the host satisfies `P`. -/
def Function.Meets : Function → Prop
  | .script _ _ => True
  | .host f => P f
  | .bound _ m _ => m.Meets P

/-- All the functions of the host that a state holds satisfy `P`. -/
structure State.Meets (s : State) : Prop where
  function : ∀ id f, s.heap.function? id = some f → f.Meets P
  cls : ∀ id cls, s.registry.get? id = some cls → cls.Meets P

end Meets

section Combining

variable {P Q R : HostFunction → Prop} (hR : ∀ f, P f → Q f → R f)

include hR

lemma Method.Meets.imp₂ {m : Method} (h : m.Meets P) (h' : m.Meets Q) : m.Meets R := by
  cases m with
  | script => trivial
  | host f => exact hR f h h'

lemma Member.Meets.imp₂ {m : Member} (h : m.Meets P) (h' : m.Meets Q) : m.Meets R := by
  cases m with
  | method m => exact Method.Meets.imp₂ hR h h'
  | property | indexer =>
    exact ⟨fun m hm => (h.1 m hm).imp₂ hR (h'.1 m hm), fun m hm => (h.2 m hm).imp₂ hR (h'.2 m hm)⟩

lemma Origin.Meets.imp₂ {o : Origin} (h : o.Meets P) (h' : o.Meets Q) : o.Meets R := by
  cases o with
  | script => trivial
  | host => exact fun f hf => hR f (h f hf) (h' f hf)

/-- What holds of all the functions of the host may be combined. -/
lemma State.Meets.imp₂ {s : State} (h : s.Meets P) (h' : s.Meets Q) : s.Meets R := by
  refine ⟨fun id f hf => ?_, fun id cls hcls => ⟨?_, fun side key m hm => ?_⟩⟩
  · have hfirst := h.function id f hf
    have hsecond := h'.function id f hf
    cases f with
    | script => trivial
    | host f => exact hR f hfirst hsecond
    | bound => exact Method.Meets.imp₂ hR hfirst hsecond
  · exact (h.cls id cls hcls).origin.imp₂ hR (h'.cls id cls hcls).origin
  · exact ((h.cls id cls hcls).member side key m hm).imp₂ hR ((h'.cls id cls hcls).member side key m hm)

end Combining

/-- What holds of all the functions of the host may be weakened. -/
lemma State.Meets.imp {P Q : HostFunction → Prop} {s : State} (h : s.Meets P) (hPQ : ∀ f, P f → Q f) :
    s.Meets Q :=
  h.imp₂ (fun f hf _ => hPQ f hf) h

/-- The labels in a scope. -/
def State.labelsOf (s : State) (index : Nat) : List String := (s.scopes[index]?.getD {}).labels

/-! ## Realms -/

/-- Bounds for what a state may hold and for what may change. -/
structure Realm where
  /-- The functions of the host that there may be. -/
  host : HostFunction → Prop
  /-- The number of scopes that get no new labels. -/
  floor : Nat

namespace Realm

/-- The realm in which only the labels below the floor are out of reach. -/
def above (floor : Nat) : Realm := ⟨fun _ => True, floor⟩

/-- The realm without bounds. -/
def whole : Realm := above 0

/-- A state inside a realm. -/
structure Admits (W : Realm) (s : State) : Prop where
  meets : s.Meets W.host
  floor_le : W.floor ≤ s.scopes.size

/-- What `s` and a later state `s'` inside the realm have in common. -/
structure Kept (W : Realm) (s s' : State) : Prop where
  admits : W.Admits s'
  config : s'.config = s.config
  depth : s'.depth = s.depth
  labelsOf : ∀ index < W.floor, s'.labelsOf index = s.labelsOf index

variable {W : Realm} {s s' s'' : State}

lemma Kept.refl (h : W.Admits s) : W.Kept s s := ⟨h, rfl, rfl, fun _ _ => rfl⟩

lemma Kept.trans (h : W.Kept s s') (h' : W.Kept s' s'') : W.Kept s s'' where
  admits := h'.admits
  config := h'.config.trans h.config
  depth := h'.depth.trans h.depth
  labelsOf := fun index hi => (h'.labelsOf index hi).trans (h.labelsOf index hi)

/-- Every state has functions of the host that are functions of the host. -/
lemma admits_above {floor : Nat} (h : floor ≤ s.scopes.size) : (above floor).Admits s := by
  have hmethod : ∀ m : Method, m.Meets (above floor).host := by
    intro m
    cases m <;> trivial
  have hmember : ∀ m : Member, m.Meets (above floor).host := by
    intro m
    cases m with
    | method m => exact hmethod m
    | property | indexer => exact ⟨fun m _ => hmethod m, fun m _ => hmethod m⟩
  refine ⟨⟨?_, ?_⟩, h⟩
  · intro id f _
    cases f with
    | script | host => trivial
    | bound owner m receiver => exact hmethod m
  · intro id cls _
    refine ⟨?_, fun _ _ m _ => hmember m⟩
    cases cls.origin with
    | script => trivial
    | host constructor => exact fun _ _ => trivial

lemma admits_whole (s : State) : whole.Admits s := admits_above (Nat.zero_le _)

/-- A change of the scopes keeps a realm if it leaves the labels below the floor. -/
lemma Admits.kept_scopes (h : W.Admits s) {scopes : Array Scope}
    (hsize : s.scopes.size ≤ scopes.size)
    (hlabels : ∀ index < W.floor, (scopes[index]?.getD {}).labels = s.labelsOf index) :
    W.Kept s { s with scopes } where
  admits := ⟨⟨h.meets.function, h.meets.cls⟩, Nat.le_trans h.floor_le hsize⟩
  config := rfl
  depth := rfl
  labelsOf := hlabels

/-- A change of the heap keeps a realm if it leaves the functions inside. -/
lemma Admits.kept_heap (h : W.Admits s) {heap : Heap}
    (hf : ∀ id f, heap.function? id = some f → f.Meets W.host) : W.Kept s { s with heap } where
  admits := ⟨⟨hf, h.meets.cls⟩, h.floor_le⟩
  config := rfl
  depth := rfl
  labelsOf := fun _ _ => rfl

/-- A change of the registry keeps a realm if it leaves the classes inside. -/
lemma Admits.kept_registry (h : W.Admits s) {registry : Registry}
    (hc : ∀ id cls, registry.get? id = some cls → cls.Meets W.host) :
    W.Kept s { s with registry } where
  admits := ⟨⟨h.meets.function, hc⟩, h.floor_le⟩
  config := rfl
  depth := rfl
  labelsOf := fun _ _ => rfl

end Realm

/-! ## Causes -/

/-- The ways in which an effect can end without a result.  None of them has a place. -/
inductive Halt.Raw : Halt → Prop
  | exhausted : Raw .exhausted
  | cancelled : Raw (.fault ⟨.cancelled, none⟩)
  | ordinary {cause} : cause.Ordinary → Raw (.fault ⟨cause, none⟩)

/-! ## Effects -/

/-- The effects that code can have on its own, with what is known of their results. -/
inductive Effect (W : Realm) : {α : Type} → Exec α → (α → Prop) → Prop
  | newScope : Effect W Exec.newScope fun id => W.floor ≤ id.index
  | hoist (c : Context) (name : String) (kind : BindingKind) :
      Effect W (Exec.hoist c name kind) fun _ => True
  | declare (c : Context) (name : String) (kind : BindingKind) (value : Value) :
      Effect W (Exec.declare c name kind value) fun _ => True
  | assignVariable (c : Context) (name : String) (value : Value) :
      Effect W (Exec.assignVariable c name value) fun _ => True
  | declareLabel (c : Context) (label : String) (h : W.floor ≤ c.scope.index) :
      Effect W (Exec.declareLabel c label) fun _ => True
  | newArray (items : List Value) : Effect W (Exec.newArray items) fun _ => True
  | newObject (properties : List (String × Value)) :
      Effect W (Exec.newObject properties) fun _ => True
  | newFunction (f : Function) (h : f.Meets W.host) : Effect W (Exec.newFunction f) fun _ => True
  | newInstance (id : ClassId) : Effect W (Exec.newInstance id) fun _ => True
  | setField (i : InstanceId) (key : String) (value : Value) :
      Effect W (Exec.modifyHeap (·.setField i key value)) fun _ => True
  | setProperty (id : ObjectId) (key : String) (value : Value) :
      Effect W (Exec.modifyHeap (·.setProperty id key value)) fun _ => True
  | modifyArray (id : ArrayId) (f : Array Value → Array Value) :
      Effect W (Exec.modifyHeap (·.modifyArray id f)) fun _ => True
  | register (cls : Class) (h : cls.Meets W.host) : Effect W (Exec.register cls) fun _ => True
  | setStaticField (id : ClassId) (key : String) (value : Value) :
      Effect W (Exec.setStaticField id key value) fun _ => True
  | printLine (line : String) : Effect W (Exec.printLine line) fun _ => True
  | cancel : Effect W Exec.cancel fun _ => True
  | takeTurn : Effect W Exec.takeTurn fun _ => True
  | checkCancelled : Effect W Exec.checkCancelled fun _ => True

/-- What an effect did: the realm is kept, a result has the property `Q`, and a failure is raw. -/
def Realm.Held (W : Realm) (Q : α → Prop) (s : State) : EStateM.Result Halt State α → Prop
  | .ok a s' => W.Kept s s' ∧ Q a
  | .error h s' => W.Kept s s' ∧ h.Raw

namespace Exec

variable {W : Realm} {s : State}

/-! ### Scopes -/

/-- Replacing a scope keeps a realm if its labels stay or it is above the floor. -/
lemma kept_setScope (hs : W.Admits s) {id : ScopeId} {scope : Scope}
    (h : W.floor ≤ id.index ∨ scope.labels = s.labelsOf id.index) :
    W.Kept s { s with scopes := s.scopes.setIfInBounds id.index scope } := by
  refine hs.kept_scopes (by simp) fun index hi => ?_
  rw [Array.getElem?_setIfInBounds]
  by_cases heq : id.index = index
  · subst heq
    have hlabels : scope.labels = s.labelsOf id.index := by
      rcases h with h | h
      · omega
      · exact h
    by_cases hlt : id.index < s.scopes.size
    · simp [hlt, hlabels]
    · simp [hlt, State.labelsOf]
  · simp [heq, State.labelsOf]

lemma held_newScope (hs : W.Admits s) :
    W.Held (fun id => W.floor ≤ id.index) s (newScope.run s) := by
  show W.Kept s s.opened ∧ W.floor ≤ s.scopes.size
  refine ⟨hs.kept_scopes (by simp) fun index hi => ?_, hs.floor_le⟩
  have hlt : index < s.scopes.size := Nat.lt_of_lt_of_le hi hs.floor_le
  rw [Array.getElem?_push_lt hlt]
  simp [State.labelsOf, hlt]

lemma held_fail (hs : W.Admits s) {Q : α → Prop} {cause : Cause} (h : cause.Ordinary) :
    W.Held Q s ((fail cause : Exec α).run s) :=
  ⟨.refl hs, .ordinary h⟩

lemma held_hoist (hs : W.Admits s) (c : Context) (name : String) (kind : BindingKind) :
    W.Held (fun _ => True) s ((hoist c name kind).run s) := by
  have hrun : (hoist c name kind).run s =
      (ofExcept ((s.scopes[c.scope.index]?.getD {}).hoist (s.services.naming.keep name) kind) >>=
        setScope c.scope).run s := rfl
  rw [hrun]
  simp only [Scope.hoist]
  split
  · exact held_fail hs trivial
  · exact ⟨kept_setScope hs (.inr rfl), trivial⟩

lemma held_declare (hs : W.Admits s) (c : Context) (name : String) (kind : BindingKind)
    (value : Value) : W.Held (fun _ => True) s ((declare c name kind value).run s) := by
  cases hrefusal : s.services.naming.refusal? name with
  | some message =>
    have hrun : (declare c name kind value).run s = (fail (.native message) : Exec Unit).run s := by
      simp [declare, hrefusal, fail]
    rw [hrun]
    exact held_fail hs trivial
  | none =>
    have hrun : (declare c name kind value).run s =
        (setScope c.scope ((s.scopes[c.scope.index]?.getD {}).declare
          (s.services.naming.keep name) kind value)).run s := by
      simp [declare, hrefusal, scopeOf, keptName]
    rw [hrun]
    exact ⟨kept_setScope hs (.inr rfl), trivial⟩

lemma held_declareLabel (hs : W.Admits s) (c : Context) (label : String)
    (h : W.floor ≤ c.scope.index) :
    W.Held (fun _ => True) s ((declareLabel c label).run s) := by
  have hrun : (declareLabel c label).run s =
      (ofExcept ((s.scopes[c.scope.index]?.getD {}).declareLabel label) >>=
        setScope c.scope).run s := rfl
  rw [hrun]
  simp only [Scope.declareLabel]
  split
  · exact held_fail hs trivial
  · exact ⟨kept_setScope hs (.inl h), trivial⟩

/-- Assigning looks through the scopes until one has the name. -/
lemma held_assignIn (hs : W.Admits s) (name kept : String) (value : Value) (ids : List ScopeId) :
    W.Held (fun _ => True) s ((assignIn name kept value ids).run s) := by
  induction ids with
  | nil => exact held_fail hs trivial
  | cons id ids ih =>
    have hscope : (scopeOf id).run s = .ok (s.scopes[id.index]?.getD {}) s := rfl
    simp only [assignIn, run_bind_ok hscope, Scope.assign]
    split
    · exact ih
    · exact held_fail hs trivial
    · split
      · exact ⟨kept_setScope hs (.inr rfl), trivial⟩
      · exact held_fail hs trivial

/-! ### Heap and registry -/

lemma held_newFunction (hs : W.Admits s) (f : Function) (h : f.Meets W.host) :
    W.Held (fun _ => True) s ((newFunction f).run s) := by
  refine ⟨hs.kept_heap fun id g hg => ?_, trivial⟩
  simp only [Heap.function?, Array.getElem?_push] at hg
  split at hg
  · cases hg
    exact h
  · exact hs.meets.function id g hg

lemma held_register (hs : W.Admits s) (cls : Class) (h : cls.Meets W.host) :
    W.Held (fun _ => True) s ((register cls).run s) := by
  refine ⟨hs.kept_registry fun id d hd => ?_, trivial⟩
  simp only [Registry.get?, Array.getElem?_push] at hd
  split at hd
  · cases hd
    exact h
  · exact hs.meets.cls id d hd

lemma held_setStaticField (hs : W.Admits s) (id : ClassId) (key : String) (value : Value) :
    W.Held (fun _ => True) s ((setStaticField id key value).run s) := by
  refine ⟨hs.kept_registry fun id' d hd => ?_, trivial⟩
  simp only [Registry.get?, Registry.modify, Array.getElem?_modify] at hd
  split at hd
  · obtain ⟨cls, hcls, rfl⟩ := Option.map_eq_some_iff.mp hd
    have hmeets := hs.meets.cls id' cls hcls
    refine ⟨hmeets.origin, fun side key' m hm => ?_⟩
    cases side with
    | ofInstance => exact hmeets.member .ofInstance key' m hm
    | ofClass => exact hmeets.member .ofClass key' m hm
  · exact hs.meets.cls id' d hd

end Exec

/-- Every effect keeps its realm. -/
lemma Effect.held {W : Realm} {m : Exec α} {Q : α → Prop} {s : State} (h : Effect W m Q)
    (hs : W.Admits s) : W.Held Q s (m.run s) := by
  cases h with
  | newScope => exact Exec.held_newScope hs
  | hoist c name kind => exact Exec.held_hoist hs c name kind
  | declare c name kind value => exact Exec.held_declare hs c name kind value
  | assignVariable c name value => exact Exec.held_assignIn hs name _ value c.scopes
  | declareLabel c label h => exact Exec.held_declareLabel hs c label h
  | newFunction f h => exact Exec.held_newFunction hs f h
  | newArray | newObject | newInstance | setField | setProperty | modifyArray =>
    exact ⟨hs.kept_heap hs.meets.function, trivial⟩
  | register cls h => exact Exec.held_register hs cls h
  | setStaticField id key value => exact Exec.held_setStaticField hs id key value
  | printLine | cancel | takeTurn =>
    exact ⟨⟨⟨⟨hs.meets.function, hs.meets.cls⟩, hs.floor_le⟩, rfl, rfl, fun _ _ => rfl⟩, trivial⟩
  | checkCancelled =>
    have hrun : Exec.checkCancelled.run s =
        if s.config.checkCancellation && s.cancelled then
          .error (.fault ⟨.cancelled, none⟩) s else .ok () s := by
      simp only [Exec.checkCancelled, EStateM.run_bind, EStateM.run_get]
      split <;> rfl
    rw [hrun]
    split
    · exact ⟨.refl hs, .cancelled⟩
    · exact ⟨.refl hs, trivial⟩

end ScriptLang
