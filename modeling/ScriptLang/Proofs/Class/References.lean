/-
References to classes.

Code gets at a class only through a value that a state holds or that it was given.  A step never makes up
such a value (`Change.stores`), so if all the classes that values refer to are registered, they stay so,
apart from those that the host handed in (`Regime.knowing`).  A class that is declared then extends an
earlier one or one of those (`Registry.Descends`).  Where there are none of them, all chains of classes
end (`State.Anchored.grounded`).
-/
import ScriptLang.Proofs.Class.Ascent
import ScriptLang.Proofs.Eval.Sessions

namespace ScriptLang

/-! ## Where the values of a state come from -/

lemma Scope.value_of_declare {a : Scope} {name other : String} {kind kind' : BindingKind} {v v' : Value}
    (h : (a.declare name kind v).bindings.get? other = some ⟨kind', some v'⟩) :
    a.bindings.get? other = some ⟨kind', some v'⟩ ∨ v' = v := by
  simp only [Scope.declare, Table.get?_insert] at h
  split at h
  · cases h
    exact .inr rfl
  · exact .inl h

/-- A name that is reserved has no value. -/
lemma Scope.value_of_hoist {a b : Scope} {name other : String} {kind kind' : BindingKind} {v : Value}
    (h : a.hoist name kind = .ok b) (hb : b.bindings.get? other = some ⟨kind', some v⟩) :
    a.bindings.get? other = some ⟨kind', some v⟩ := by
  unfold Scope.hoist at h
  split at h
  · cases h
  · cases h
    simp only [Table.get?_insert] at hb
    split at hb
    · cases hb
    · exact hb

/-- The fields of a class that is declared have no values yet. -/
lemma Draft.null_of_staticFields {decl : ClassDecl} {parent : Option ClassId} {c : Context}
    {draft : Draft} (h : Draft.ofDecl decl parent c = .ok draft) {key : String} {v : Value}
    (hv : draft.partialClass.staticFields.get? key = some v) : v = .null := by
  have haddField : ∀ (d : Draft) (side : Side) (key : String) (initializer : Option Expr),
      (∀ key v, d.partialClass.staticFields.get? key = some v → v = .null) →
      ∀ key' v, (d.addField side key initializer).partialClass.staticFields.get? key' = some v →
        v = .null := by
    intro d side key initializer hd key' v hv
    cases side with
    | ofInstance => exact hd key' v hv
    | ofClass =>
      simp only [Draft.addField, Class.setField, Table.get?_insert] at hv
      split at hv
      · exact (Option.some.inj hv).symm
      · exact hd key' v hv
  refine Draft.ofDecl_induct h (P := fun d => ∀ key v, d.partialClass.staticFields.get? key = some v →
    v = .null) (by simp [Draft.start, Table.get?]) (fun m _ d d' hd hadds => ?_) key v hv
  cases hadds with
  | field => exact haddField d _ _ _ hd
  | constructor => exact hd
  | autoProperty =>
    rw [Draft.addMember, Class.staticFields_addMember]
    exact haddField d _ _ _ hd
  | method | property | indexer =>
    rw [Draft.addMember, Class.staticFields_addMember]
    exact hd

namespace State.Stores

variable {s : State} {v : Value}

lemma of_eq {s' : State} (h : s'.Stores v) (hscopes : s'.scopes = s.scopes) (hheap : s'.heap = s.heap)
    (hregistry : s'.registry = s.registry) : s.Stores v := by
  cases h with
  | @binding id name kind _ hb =>
    rw [State.scopeAt, hscopes] at hb
    exact .binding hb
  | element he => exact .element (hheap ▸ he)
  | property hp => exact .property (hheap ▸ hp)
  | field hf => exact .field (hheap ▸ hf)
  | static hcls hkey => exact .static (hregistry ▸ hcls) hkey
  | receiver hid => exact .receiver (hheap ▸ hid)

lemma of_withScope {id : ScopeId} {scope : Scope} (h : (s.withScope id scope).Stores v) :
    s.Stores v ∨ ∃ name kind, scope.bindings.get? name = some ⟨kind, some v⟩ := by
  cases h with
  | @binding id' name kind _ hb =>
    rcases s.scopeAt_withScope id id' scope with ⟨hscope, -⟩ | hscope
    · rw [hscope] at hb
      exact .inr ⟨name, kind, hb⟩
    · rw [hscope] at hb
      exact .inl (.binding hb)
  | element he => exact .inl (.element he)
  | property hp => exact .inl (.property hp)
  | field hf => exact .inl (.field hf)
  | static hcls hkey => exact .inl (.static hcls hkey)
  | receiver hid => exact .inl (.receiver hid)

lemma of_declare {id : ScopeId} {name : String} {kind : BindingKind} {v' : Value}
    (h : (s.withScope id ((s.scopeAt id).declare name kind v')).Stores v) : s.Stores v ∨ v = v' := by
  rcases h.of_withScope with h | ⟨name', kind', hb⟩
  · exact .inl h
  · exact (Scope.value_of_declare hb).imp_left .binding

/-- What another heap holds. -/
lemma of_withHeap {heap : Heap} {P : Prop} (h : (s.withHeap heap).Stores v)
    (helement : ∀ id, v ∈ heap.array id → v ∈ s.heap.array id ∨ P)
    (hproperty : ∀ id key, (heap.object id).get? key = some v →
      (s.heap.object id).get? key = some v ∨ P)
    (hfield : ∀ i key, heap.field? i key = some v → s.heap.field? i key = some v ∨ P)
    (hreceiver : ∀ id owner m, heap.function? id = some (.bound owner m (some v)) →
      s.heap.function? id = some (.bound owner m (some v)) ∨ P) : s.Stores v ∨ P := by
  cases h with
  | binding hb => exact .inl (.binding hb)
  | element he => exact (helement _ he).imp_left .element
  | property hp => exact (hproperty _ _ hp).imp_left .property
  | field hf => exact (hfield _ _ hf).imp_left .field
  | static hcls hkey => exact .inl (.static hcls hkey)
  | receiver hid => exact (hreceiver _ _ _ hid).imp_left .receiver

lemma of_addFunction {f : Function} (h : (s.withHeap (s.heap.addFunction f).2).Stores v) :
    s.Stores v ∨ ∃ owner m, f = .bound owner m (some v) := by
  refine h.of_withHeap (fun _ => .inl) (fun _ _ => .inl) (fun _ _ => .inl) fun id owner m hid => ?_
  simp only [Heap.function?, Heap.addFunction, Array.getElem?_push] at hid
  split at hid
  · cases hid
    exact .inr ⟨owner, m, rfl⟩
  · exact .inl hid

lemma of_setField {i : InstanceId} {key : String} {v' : Value}
    (h : (s.withHeap (s.heap.setField i key v')).Stores v) : s.Stores v ∨ v = v' := by
  refine h.of_withHeap (fun _ => .inl) (fun _ _ => .inl) (fun i' key' hf => ?_) fun _ _ _ => .inl
  simp only [Heap.field?, Heap.instance?, Heap.setField, Array.getElem?_modify] at hf ⊢
  split at hf
  · obtain ⟨inst, hinst, hget⟩ := Option.bind_eq_some_iff.mp hf
    obtain ⟨old, hold, rfl⟩ := Option.map_eq_some_iff.mp hinst
    simp only [Table.get?_insert] at hget
    split at hget
    · cases hget
      exact .inr rfl
    · exact .inl (by simp [hold, hget])
  · exact .inl hf

lemma of_withInstance {id : ClassId} (h : (s.withInstance id).Stores v) : s.Stores v := by
  refine Or.resolve_right (h.of_withHeap (P := False) (fun _ => .inl) (fun _ _ => .inl)
    (fun i key hf => .inl ?_) fun _ _ _ => .inl) not_false
  simp only [Heap.field?, Heap.instance?, Heap.addInstance, Array.getElem?_push] at hf ⊢
  split at hf
  · cases hf
  · exact hf

/-- What other classes hold. -/
lemma of_withRegistry {registry : Registry} {P : Prop} (h : (s.withRegistry registry).Stores v)
    (hstatic : ∀ id cls key, registry.get? id = some cls → cls.staticFields.get? key = some v →
      (∃ cls', s.registry.get? id = some cls' ∧ cls'.staticFields.get? key = some v) ∨ P) :
    s.Stores v ∨ P := by
  cases h with
  | binding hb => exact .inl (.binding hb)
  | element he => exact .inl (.element he)
  | property hp => exact .inl (.property hp)
  | field hf => exact .inl (.field hf)
  | static hcls hkey =>
    rcases hstatic _ _ _ hcls hkey with ⟨cls', hcls', hkey'⟩ | hP
    · exact .inl (.static hcls' hkey')
    · exact .inr hP
  | receiver hid => exact .inl (.receiver hid)

lemma of_register {cls : Class} (h : (s.withRegistry (s.registry.insert cls).2).Stores v) :
    s.Stores v ∨ ∃ key, cls.staticFields.get? key = some v := by
  refine h.of_withRegistry fun id cls' key hcls hkey => ?_
  rw [Registry.get?_insert] at hcls
  split at hcls
  · cases hcls
    exact .inr ⟨key, hkey⟩
  · exact .inl ⟨cls', hcls, hkey⟩

lemma of_setStaticField {id : ClassId} {key : String} {v' : Value}
    (h : (s.withRegistry (s.registry.modify id (·.setField key v'))).Stores v) :
    s.Stores v ∨ v = v' := by
  refine h.of_withRegistry fun id' cls key' hcls hkey => ?_
  rw [Registry.get?_modify] at hcls
  split at hcls
  · obtain ⟨cls', hcls', rfl⟩ := Option.map_eq_some_iff.mp hcls
    simp only [Class.setField, Table.get?_insert] at hkey
    split at hkey
    · cases hkey
      exact .inr rfl
    · exact .inl ⟨cls', hcls', hkey⟩
  · exact .inl ⟨cls, hcls, hkey⟩

end State.Stores

section Changes

variable {K : State → State → Prop} {V : Value → State → Prop} {t t' : Task} {s₀ s s' : State}

/-- The values that a state holds after a change were there before, or they may be used. -/
theorem Change.stores (h : Change K V t s₀ s s') {v : Value} (hv : s'.Stores v) :
    s.Stores v ∨ V v s ∨ v = .null := by
  cases h with
  | reserved _ _ hhoist =>
    rcases hv.of_withScope with hv | ⟨name, kind, hb⟩
    · exact .inl hv
    · exact .inl (.binding (Scope.value_of_hoist hhoist hb))
  | labelled _ _ hlabel =>
    rcases hv.of_withScope with hv | ⟨name, kind, hb⟩
    · exact .inl hv
    · unfold Scope.declareLabel at hlabel
      split at hlabel
      · cases hlabel
      · cases hlabel
        exact .inl (.binding hb)
  | declared _ hvalue | parameter _ _ hvalue =>
    rcases hv.of_declare with hv | rfl
    · exact .inl hv
    · exact .inr (.inl hvalue)
  | assigned _ _ hassign hvalue =>
    obtain ⟨kind, -, -, -, rfl⟩ := Scope.of_assign hassign
    rcases hv.of_declare with hv | rfl
    · exact .inl hv
    · exact .inr (.inl hvalue)
  | @array _ _ _ items hitems =>
    refine hv.of_withHeap (fun id he => ?_) (fun _ _ => .inl) (fun _ _ => .inl) fun _ _ _ => .inl
    simp only [Heap.array, Heap.addArray, Array.getElem?_push] at he
    split at he
    · exact .inr (.inl (hitems v (by simpa using he)))
    · exact .inl he
  | @object _ _ _ properties hproperties =>
    refine hv.of_withHeap (fun _ => .inl) (fun id key hp => ?_) (fun _ _ => .inl) fun _ _ _ => .inl
    simp only [Heap.object, Heap.addObject, Array.getElem?_push] at hp
    split at hp
    · exact .inr (.inl (hproperties _ (Table.mem_of_get?_ofList hp)))
    · exact .inl hp
  | closure =>
    rcases hv.of_addFunction with hv | ⟨owner, m, heq⟩
    · exact .inl hv
    · cases heq
  | taken _ _ hreceiver =>
    rcases hv.of_addFunction with hv | ⟨owner, m, heq⟩
    · exact .inl hv
    · exact .inr (.inl (hreceiver v (Function.bound.inj heq).2.2))
  | @element _ id _ _ f hf =>
    refine hv.of_withHeap (fun id' he => ?_) (fun _ _ => .inl) (fun _ _ => .inl) fun _ _ _ => .inl
    simp only [Heap.array, Heap.modifyArray, Array.getElem?_modify] at he ⊢
    split at he
    · cases hget : s.heap.arrays[id'.index]? with
      | none => simp [hget] at he
      | some items =>
        rcases hf items v (by simpa [hget] using he) with hold | hnew
        · exact .inl (by simpa using hold)
        · exact .inr (.inl hnew)
    · exact .inl he
  | @property _ id key v' _ _ hvalue =>
    refine hv.of_withHeap (fun _ => .inl) (fun id' key' hp => ?_) (fun _ _ => .inl) fun _ _ _ => .inl
    simp only [Heap.object, Heap.setProperty, Array.getElem?_modify] at hp ⊢
    split at hp
    · cases hget : s.heap.objects[id'.index]? with
      | none => simp [hget, Table.get?] at hp
      | some properties =>
        simp only [hget, Option.map_some, Option.getD_some, Table.get?_insert] at hp ⊢
        split at hp
        · cases hp
          exact .inr (.inl hvalue)
        · exact .inl hp
    · exact .inl hp
  | fieldSetUp _ _ hvalue | fieldWritten _ _ _ _ hvalue | fieldOfHost _ hvalue =>
    rcases hv.of_setField with hv | rfl
    · exact .inl hv
    · exact .inr (.inl hvalue)
  | registered _ hdraft =>
    rcases hv.of_register with hv | ⟨key, hkey⟩
    · exact .inl hv
    · exact .inr (.inr (Draft.null_of_staticFields hdraft hkey))
  | staticSetUp _ _ hvalue | staticWritten _ _ _ hvalue =>
    rcases hv.of_setStaticField with hv | rfl
    · exact .inl hv
    · exact .inr (.inl hvalue)
  | printed | cancelled | turned => exact .inl (hv.of_eq rfl rfl rfl)

end Changes

/-! ## Known classes -/

section Known

variable (K : ClassId → Prop)

/-- A value refers to no class, or to one that is known. -/
def Value.Known (v : Value) : Prop := ∀ id, v = .classRef id → K id

/-- So do `this` in a context and the class whose code runs there. -/
def Context.Known (c : Context) : Prop := (∀ v ∈ c.this, v.Known K) ∧ ∀ id ∈ c.owner, K id

def KnownReceiver (owner : ClassId) (receiver : Option Value) : Prop :=
  K owner ∧ ∀ v ∈ receiver, v.Known K

def Function.Known : Function → Prop
  | .script _ closure => closure.Known K
  | .host _ => True
  | .bound owner _ receiver => KnownReceiver K owner receiver

def Frame.Known : Frame → Prop
  | .function closure => closure.Known K
  | .method _ owner receiver => KnownReceiver K owner receiver

/-- A function of the host brings in no references but to known classes. -/
def HostFunction.Known (f : HostFunction) : Prop := ∀ id, f.Brings id → K id

/-- The class as one of which a task sets up an instance. -/
def Task.built? : Task → Option ClassId
  | .setUp _ id _ _ => some id
  | _ => none

/-- All that a task is given refers to known classes. -/
structure Task.Known (t : Task) : Prop where
  built : ∀ id ∈ t.built?, K id
  values : ∀ v ∈ t.values, v.Known K
  context : match t with
    | .evaluate c _ | .assign c _ _ | .execute c _ | .sequence c _ | .call c _ _ | .setUp c _ _ _
    | .getMember c _ _ => c.Known K
    | .invoke frame _ _ => frame.Known K
    | .host _ request => request.context.Known K
  host : t.Meets fun f => f.Known K

end Known

/-- A class is registered, or it is one of those that the host may hand in all the same. -/
def Registry.Knows (F : ClassId → Prop) (r : Registry) (id : ClassId) : Prop :=
  (r.get? id).isSome ∨ F id

/-- Every class extends an earlier one, unless a script declared it as an extension of a class that the
host handed in. -/
def Registry.Descends (F : ClassId → Prop) (r : Registry) : Prop :=
  ∀ id cls p, r.get? id = some cls → cls.parent = some p →
    p.index < id.index ∨ F p ∧ ∀ f, cls.origin ≠ .host f

/-- All that a state holds refers to known classes, and so does every class.  The functions of the host
satisfy `P`, and neither they nor the operators bring in other classes. -/
structure State.Knowing (F : ClassId → Prop) (P : HostFunction → Prop) (s : State) : Prop where
  stored : ∀ v, s.Stores v → v.Known (s.registry.Knows F)
  function : ∀ id f, s.heap.function? id = some f → f.Known (s.registry.Knows F)
  parent : s.registry.Descends F
  host : s.Meets fun f => P f ∧ f.Known (s.registry.Knows F)
  operators : ∀ id, s.services.operators.Brings id → s.registry.Knows F id

namespace State.Grows

variable {F : ClassId → Prop} {s s' : State} (h : s.Grows s')

include h

lemma isSome_get? {id : ClassId} (hid : (s.registry.get? id).isSome) :
    (s'.registry.get? id).isSome := by
  obtain ⟨cls, hcls⟩ := Option.isSome_iff_exists.mp hid
  obtain ⟨cls', hcls', -⟩ := h.cls hcls
  simp [hcls']

lemma knows {id : ClassId} (hid : s.registry.Knows F id) : s'.registry.Knows F id :=
  hid.imp_left h.isSome_get?

lemma known_value {v : Value} (hv : v.Known (s.registry.Knows F)) : v.Known (s'.registry.Knows F) :=
  fun id hid => h.knows (hv id hid)

lemma known_context {c : Context} (hc : c.Known (s.registry.Knows F)) :
    c.Known (s'.registry.Knows F) :=
  ⟨fun v hv => h.known_value (hc.1 v hv), fun id hid => h.knows (hc.2 id hid)⟩

lemma known_receiver {owner : ClassId} {receiver : Option Value}
    (hr : KnownReceiver (s.registry.Knows F) owner receiver) :
    KnownReceiver (s'.registry.Knows F) owner receiver :=
  ⟨h.knows hr.1, fun v hv => h.known_value (hr.2 v hv)⟩

lemma known_function {f : Function} (hf : f.Known (s.registry.Knows F)) :
    f.Known (s'.registry.Knows F) := by
  cases f with
  | script => exact h.known_context hf
  | host => trivial
  | bound => exact h.known_receiver hf

end State.Grows

namespace Registry.Descends

variable {F : ClassId → Prop} {r : Registry}

/-- A class that is registered extends an earlier one, or it was declared by a script. -/
lemma register (h : r.Descends F) {cls : Class}
    (hcls : ∀ p ∈ cls.parent, (r.get? p).isSome ∨ F p ∧ ∀ f, cls.origin ≠ .host f) :
    (r.insert cls).2.Descends F := by
  intro id cls' p hget hp
  rw [Registry.get?_insert] at hget
  split at hget
  next heq =>
    cases hget
    refine (hcls p hp).imp_left fun hsome => ?_
    obtain ⟨parent, hparent⟩ := Option.isSome_iff_exists.mp hsome
    have hlt := Registry.lt_size_of_get? hparent
    omega
  next => exact h id cls' p hget hp

lemma setStaticField (h : r.Descends F) (id : ClassId) (key : String) (v : Value) :
    (r.modify id (·.setField key v)).Descends F := by
  intro id' cls p hget hp
  rw [Registry.get?_modify] at hget
  split at hget
  · obtain ⟨cls', hcls', rfl⟩ := Option.map_eq_some_iff.mp hget
    exact h id' cls' p hcls' hp
  · exact h id' cls p hget hp

end Registry.Descends

namespace State.Knowing

variable {F : ClassId → Prop} {P : HostFunction → Prop} {s s' : State}

lemma of_grows (h : s.Knowing F P) (hgrows : s.Grows s')
    (hstored : ∀ v, s'.Stores v → s.Stores v ∨ v.Known (s'.registry.Knows F))
    (hfunction : ∀ id f, s'.heap.function? id = some f →
      s.heap.function? id = some f ∨ f.Known (s'.registry.Knows F))
    (hparent : s'.registry.Descends F)
    (hhost : s'.Meets fun f => P f ∧ f.Known (s.registry.Knows F)) : s'.Knowing F P where
  stored := fun v hv => by
    rcases hstored v hv with hv | hv
    · exact hgrows.known_value (h.stored v hv)
    · exact hv
  function := fun id f hf => by
    rcases hfunction id f hf with hf | hf
    · exact hgrows.known_function (h.function id f hf)
    · exact hf
  parent := hparent
  host := hhost.imp fun _ hf => ⟨hf.1, fun id hid => hgrows.knows (hf.2 id hid)⟩
  operators := fun id hid => hgrows.knows (h.operators id (hgrows.services ▸ hid))

/-- A class extends known ones. -/
lemma knows_parent (h : s.Knowing F P) {id p : ClassId} {cls : Class}
    (hcls : s.registry.get? id = some cls) (hp : cls.parent = some p) : s.registry.Knows F p := by
  rcases h.parent id cls p hcls hp with hlt | ⟨hforeign, -⟩
  · exact .inl (Registry.isSome_get?_of_lt (hlt.trans (Registry.lt_size_of_get? hcls)))
  · exact .inr hforeign

lemma function_of_addFunction (h : s.Knowing F P) {f : Function} (hf : f.Known (s.registry.Knows F))
    (id : FunctionId) (f' : Function)
    (hget : (s.heap.addFunction f).2.function? id = some f') : f'.Known (s.registry.Knows F) := by
  simp only [Heap.function?, Heap.addFunction, Array.getElem?_push] at hget
  split at hget
  · cases hget
    exact hf
  · exact h.function id f' hget

end State.Knowing

/-- The class that a declaration extends. -/
lemma Draft.parent_of_ofDecl {decl : ClassDecl} {parent : Option ClassId} {c : Context} {draft : Draft}
    (h : Draft.ofDecl decl parent c = .ok draft) : (draft.finish c).parent = parent :=
  Draft.ofDecl_induct h (P := fun d => d.partialClass.parent = parent) rfl
    fun _ _ _ _ hd hadds => hadds.parent_eq.trans hd

/-! ## The regime -/

/-- What is kept: the state grows, and all references are to known classes. -/
structure State.KeepsKnowing (F : ClassId → Prop) (P : HostFunction → Prop) (s s' : State) : Prop where
  grows : s.Grows s'
  knowing : s'.Knowing F P

namespace Task.Known

variable {F K : ClassId → Prop} {t : Task} {c : Context} {s s' s₀ : State}

lemma around (h : t.Known K) (hc : t.context? = some c) : c.Known K := by
  have hcontext := h.context
  cases t <;> cases hc <;> exact hcontext

lemma mono (hs : s.Grows s') (h : t.Known (s.registry.Knows F)) : t.Known (s'.registry.Knows F) := by
  refine ⟨fun id hid => hs.knows (h.built id hid), fun v hv => hs.known_value (h.values v hv), ?_, ?_⟩
  · have hcontext := h.context
    cases t with
    | invoke frame =>
      cases frame with
      | function => exact hs.known_context hcontext
      | method => exact hs.known_receiver hcontext
    | _ => exact hs.known_context hcontext
  · have hhost := h.host
    cases t with
    | host f => exact fun id hid => hs.knows (hhost id hid)
    | _ => trivial

end Task.Known

section Steps

variable {F K : ClassId → Prop} {P : HostFunction → Prop} {t t' : Task} {c : Context} {s s' s₀ : State}

/-- In a method, `this` is the receiver or the class. -/
lemma Context.known_method {scope : ScopeId} {closure : Context} {owner : ClassId}
    {receiver : Option Value} (h : KnownReceiver K owner receiver) :
    (Context.method scope closure owner receiver).Known K := by
  refine ⟨?_, ?_⟩
  · rintro v ⟨⟩
    cases receiver with
    | none =>
      rintro id ⟨⟩
      exact h.1
    | some v => exact h.2 v rfl
  · rintro id ⟨⟩
    exact h.1

lemma Frame.Known.context {frame : Frame} (h : frame.Known K) (scope : ScopeId) :
    (frame.context scope).Known K := by
  cases frame with
  | function => exact h
  | method => exact Context.known_method h

lemma Task.Known.evaluates {e : Expr} (h : t.Known K) (ht : t.Evaluates s₀ c e) :
    c.Known K := by
  cases ht with
  | operand | target | inStatement | inLoop => exact h.context
  | default => exact Frame.Known.context h.context _
  | opening => exact Context.known_method ⟨h.built _ rfl, by simp [Value.Known]⟩

lemma StmtForm.Turns.known {floor : Nat} {form : StmtForm} {around : Context} {body : Stmt}
    (h : form.Turns floor c around body) (hc : c.Known K) : around.Known K := by
  cases h <;> exact hc

lemma Task.known_evaluate {e : Expr} (hc : c.Known K) : (Task.evaluate c e).Known K :=
  ⟨nofun, fun v hv => hc.1 v (Option.mem_toList.mp hv), hc, trivial⟩

/-- A function of the host is given known classes if its arguments and its receiver are. -/
lemma Task.known_host {f : HostFunction} {receiver : Option Value} {args : List Value} (hc : c.Known K)
    (hreceiver : ∀ v ∈ receiver, v.Known K) (hargs : ∀ v ∈ args, v.Known K) (hf : f.Known K) :
    (Task.host f ⟨c, receiver, args⟩).Known K := by
  refine ⟨nofun, fun v hv => ?_, hc, hf⟩
  simp only [Task.values, HostCall.values, List.mem_append, Option.mem_toList,
    Option.map_eq_some_iff] at hv
  rcases hv with ((hv | hv) | hv) | ⟨id, hid, rfl⟩
  · exact hreceiver v hv
  · exact hargs v hv
  · exact hc.1 v hv
  · rintro _ ⟨⟩
    exact hc.2 id hid

/-- Changes keep all references to known classes. -/
lemma State.Knowing.change (hs : s.Knowing F P) (ht : t.Known (s.registry.Knows F))
    (h : Change (State.KeepsKnowing F P) (fun v s => v.Known (s.registry.Knows F)) t s₀ s s') :
    s'.Knowing F P := by
  have hgrows : s.Grows s' := h.grows fun _ _ h => h.grows
  have hstored : ∀ v, s'.Stores v → s.Stores v ∨ v.Known (s'.registry.Knows F) := by
    intro v hv
    rcases h.stores hv with hold | hnew | rfl
    · exact .inl hold
    · exact .inr (hgrows.known_value hnew)
    · exact .inr nofun
  have hhost := h.meets hs.host
  cases h with
  | closure hmakes =>
    refine hs.of_grows hgrows hstored (fun id f hf => .inr ?_) hs.parent hhost
    exact hs.function_of_addFunction (f := .script _ _) (ht.around hmakes.context?_eq) id f hf
  | taken _ hsees hreceiver =>
    refine hs.of_grows hgrows hstored (fun id f hf => .inr ?_) hs.parent hhost
    obtain ⟨caller, -, hsearch⟩ := hsees.search
    obtain ⟨cls, key, -, howner, -, -⟩ := Registry.member_of_search hsearch
    exact hs.function_of_addFunction (f := .bound _ _ _) ⟨.inl (by simp [howner]), hreceiver⟩ id f hf
  | registered _ hdraft hparent =>
    refine hs.of_grows hgrows hstored (fun _ _ => .inl) (hs.parent.register fun p hp => ?_) hhost
    rw [Draft.parent_of_ofDecl hdraft] at hp
    exact (hparent p hp p rfl).imp_right fun hforeign => ⟨hforeign, nofun⟩
  | staticSetUp | staticWritten =>
    exact hs.of_grows hgrows hstored (fun _ _ => .inl) (hs.parent.setStaticField _ _ _) hhost
  | reserved | labelled | declared | parameter | assigned | array | object | element | property
  | fieldSetUp | fieldWritten | fieldOfHost | printed | cancelled | turned =>
    exact hs.of_grows hgrows hstored (fun _ _ => .inl) hs.parent hhost

/-- A state with one more instance. -/
lemma State.Knowing.withInstance (hs : s.Knowing F P) (id : ClassId) :
    (s.withInstance id).Knowing F P :=
  hs.of_grows (.withInstance s id) (fun _ hv => .inl hv.of_withInstance) (fun _ _ => .inl) hs.parent
    ⟨hs.host.function, hs.host.cls⟩

/-- The tasks to which a step leads are given known classes. -/
lemma Lead.known (hgrows : ∀ id, s₀.registry.Knows F id → s.registry.Knows F id)
    (hs₀ : s₀.Knowing F P) (hs : s.Knowing F P) (ht : t.Known (s.registry.Knows F))
    (h : Lead (State.KeepsKnowing F P) (fun v s => v.Known (s.registry.Knows F)) t s₀ s t' s') :
    s'.Knowing F P ∧ t'.Known (s'.registry.Knows F) := by
  -- A constructor of the host is taken from the class as it was when the step started.
  have hhost : t'.Meets fun f => f.Known (s.registry.Knows F) := by
    refine h.meets (hs₀.host.imp fun f hf id hid => ?_) (hs.host.imp fun _ hf => hf.2)
    exact hgrows id (hf.2 id hid)
  have hnone : ∀ {t : Task}, t.built? = none → ∀ id ∈ t.built?, s.registry.Knows F id := by
    intro t ht id hid
    rw [ht] at hid
    cases hid
  cases h with
  | evaluate he => exact ⟨hs, Task.known_evaluate (ht.evaluates he)⟩
  | initializer hmade =>
    refine ⟨hs, Task.known_evaluate (Context.known_method ⟨?_, by simp⟩)⟩
    obtain ⟨s₁, hcls, hkept⟩ := hmade.registered
    exact hkept.grows.knows (.inl (by simp [hcls]))
  | assign he hv =>
    refine ⟨hs, hnone rfl, fun v hmem => ?_, ht.around he.context?_eq, trivial⟩
    cases List.mem_singleton.mp hmem
    exact hv
  | branch | block | listed => exact ⟨hs, hnone rfl, by simp [Task.values], ht.context, trivial⟩
  | turn _ hturns =>
    refine ⟨hs, ?_⟩
    have haround := hturns.known ht.context
    unfold Stmt.turn
    split
    · exact ⟨hnone rfl, by simp [Task.values], haround, trivial⟩
    · exact ⟨hnone rfl, by simp [Task.values], haround, trivial⟩
  | called hhome hcalls =>
    refine ⟨hs, ?_⟩
    have hc := ht.around (Task.context?_of_home hhome)
    cases hcalls with
    | function hid hargs => exact ⟨hnone rfl, hargs, hs.function _ _ hid, trivial⟩
    | hostFunction _ hargs => exact Task.known_host hc (by simp) hargs hhost
    | method _ howner _ hreceiver hargs =>
      exact ⟨hnone rfl, hargs, ⟨.inl (by simp [howner]), hreceiver⟩, trivial⟩
    | hostMethod _ hreceiver hargs => exact Task.known_host hc hreceiver hargs hhost
  | constructed hconstructs hid hargs =>
    refine ⟨hs.withInstance _, ?_, hargs, ht.around hconstructs.context?_eq, trivial⟩
    rintro id ⟨⟩
    exact hid _ rfl
  | body => exact ⟨hs, hnone rfl, by simp [Task.values], Frame.Known.context ht.context _, trivial⟩
  | parent hcls hp hargs =>
    refine ⟨hs, ?_, hargs, ht.context, trivial⟩
    rintro p ⟨⟩
    exact hgrows _ (hs₀.knows_parent hcls hp)
  | hostConstructor _ _ hargs =>
    exact ⟨hs, Task.known_host ht.context (by simp [Value.Known]) hargs hhost⟩
  | @constructor _ id i _ _ closure _ _ =>
    have hmethod : (Context.method ⟨s₀.scopes.size⟩ closure id (some (.instanceRef i))).Known
        (s.registry.Knows F) := Context.known_method ⟨ht.built _ rfl, by simp [Value.Known]⟩
    exact ⟨hs, hnone rfl, by simp [Task.values], hmethod, trivial⟩
  | callBack _ hv hargs =>
    refine ⟨hs, hnone rfl, fun v hmem => ?_, ht.context, trivial⟩
    rcases List.mem_cons.mp hmem with rfl | hmem
    · exact hv
    · exact hargs v hmem
  | memberForHost _ hv =>
    refine ⟨hs, hnone rfl, fun v hmem => ?_, ht.context, trivial⟩
    cases List.mem_singleton.mp hmem
    exact hv

end Steps

/-- Nothing but the depth of calls differs. -/
lemma State.Knowing.at_depth {F : ClassId → Prop} {P : HostFunction → Prop} {s : State}
    (h : s.Knowing F P) (depth : Nat) : ({ s with depth } : State).Knowing F P :=
  ⟨fun v hv => h.stored v (hv.of_eq rfl rfl rfl), h.function, h.parent, ⟨h.host.function, h.host.cls⟩,
    h.operators⟩

namespace State.KeepsKnowing

variable {F : ClassId → Prop} {P : HostFunction → Prop} {s s' s'' : State}

lemma trans (h : s.KeepsKnowing F P s') (h' : s'.KeepsKnowing F P s'') : s.KeepsKnowing F P s'' :=
  ⟨h.grows.trans h'.grows, h'.knowing⟩

lemma opened (h : s.Knowing F P) : s.KeepsKnowing F P s.opened := by
  refine ⟨.opened s, h.of_grows (.opened s) (fun v hv => .inl ?_) (fun _ _ => .inl) h.parent
    ⟨h.host.function, h.host.cls⟩⟩
  cases hv with
  | binding hb =>
    simp only [State.scopeAt, State.opened, Array.getElem?_push] at hb
    split at hb
    · cases hb
    · exact .binding hb
  | element he => exact .element he
  | property hp => exact .property hp
  | field hf => exact .field hf
  | static hcls hkey => exact .static hcls hkey
  | receiver hid => exact .receiver hid

lemma withInstance (h : s.Knowing F P) (id : ClassId) : s.KeepsKnowing F P (s.withInstance id) :=
  ⟨.withInstance s id, h.withInstance id⟩

end State.KeepsKnowing

/-- A task is given known classes in all the states that its step passes. -/
lemma Task.Known.inside {F : ClassId → Prop} {t : Task} {s s₀ : State} (h : t.Known (s₀.registry.Knows F))
    (hgrows : (t.inside s₀).Grows s) : t.Known (s.registry.Knows F) := by
  refine Task.Known.mono hgrows ?_
  rwa [Task.registry_inside]

/-- All references are to known classes. -/
def Regime.knowing (F : ClassId → Prop) (P : HostFunction → Prop) : Regime where
  Good := State.Knowing F P
  Kept := State.KeepsKnowing F P
  Near := State.KeepsKnowing F P
  Knows := fun r id => r.Knows F id
  Does := fun _ s t => t.Known (s.registry.Knows F)
  Stalls := fun _ => True
  refl := fun h => ⟨.refl _, h⟩
  trans := .trans
  good := State.KeepsKnowing.knowing
  near := id
  near_trans := .trans
  grows := State.KeepsKnowing.grows
  opened := .opened
  entered := fun h => h.at_depth _
  left := fun h => ⟨.left h.grows, h.knowing.at_depth _⟩
  near_left := fun h => ⟨.left h.grows, h.knowing.at_depth _⟩
  knows := fun h hid => h.grows.knows hid
  registered := fun _ hcls => .inl (by simp [hcls])
  stored := fun hs hv => hs.stored _ hv
  given := fun _ ht hv => ht.values _ hv
  brought := fun _ ht hid => ht.host _ hid
  operated := fun hs hid => hs.operators _ hid
  handled := fun _ _ h => h
  change := fun hs h => by
    have ht := hs.does.inside hs.kept.grows
    exact ⟨h.grows fun _ _ h => h.grows, hs.kept.knowing.change ht h⟩
  lead := fun hs h => by
    refine h.known (fun id hid => ?_) hs.start hs.kept.knowing (hs.does.inside hs.kept.grows)
    refine hs.kept.grows.knows ?_
    rwa [Task.registry_inside]
  constructed := fun hs h _ => (State.KeepsKnowing.withInstance hs _).trans h
  abandoned := fun hs h => (State.KeepsKnowing.withInstance hs _).trans h
  exhausted := fun _ _ => trivial
  endless := fun _ _ => trivial
  stalls_left := id
  halting := .inl fun _ _ => trivial

/-- Every state that is left is as good, with a result or without. -/
lemma Regime.knowing_after {F : ClassId → Prop} {P : HostFunction → Prop} {α : Type}
    {Q : α → State → Prop} {m : Exec α} {s : State} (h : (Regime.knowing F P).Left Q s (m.run s)) :
    s.KeepsKnowing F P (m.after s) :=
  (Regime.knowing F P).near_after h

/-! ## Sessions -/

/-- A host may use the functions that satisfy `H`, and hands in no references but those to known
classes. -/
def Terms.knowing (F : ClassId → Prop) (H : HostFunction → Prop) : Terms where
  host := H
  knows := fun r id => r.Knows F id

lemma Context.known_root (K : ClassId → Prop) : Interpreter.root.Known K := ⟨nofun, nofun⟩

section Sessions

variable {F : ClassId → Prop} {P H : HostFunction → Prop} {r : Registry} {s : State}

lemma Regime.serves_knowing : (Regime.knowing F P).Serves (.knowing F H) where
  knows := id
  evaluate := fun _ => Task.known_evaluate (Context.known_root _)
  sequence := fun _ => ⟨nofun, nofun, Context.known_root _, trivial⟩
  call := fun _ hf hargs => by
    refine ⟨nofun, fun v hv => ?_, Context.known_root _, trivial⟩
    rcases List.mem_cons.mp hv with rfl | hv
    · exact hf
    · exact hargs v hv
  setUp := fun hs hid hargs => by
    refine ⟨hs.withInstance _, ?_, hargs, Context.known_root _, trivial⟩
    rintro _ ⟨⟩
    exact hid

/-- What is kept by the operations of a host: all references are to known classes, among which are those
of `r`. -/
structure State.KnowingFrom (F : ClassId → Prop) (P : HostFunction → Prop) (r : Registry) (s : State) :
    Prop where
  knowing : s.Knowing F P
  knows : ∀ id, r.Knows F id → s.registry.Knows F id

namespace State.KnowingFrom

lemma of_keeps {s' : State} (h : s.KnowingFrom F P r) (hkeeps : s.KeepsKnowing F P s') :
    s'.KnowingFrom F P r :=
  ⟨hkeeps.knowing, fun id hid => hkeeps.grows.knows (h.knows id hid)⟩

/-- The functions that refer to what is known in `r` refer to known classes. -/
lemma host (h : s.KnowingFrom F P r) {f : HostFunction} (hf : P f ∧ f.Known (r.Knows F)) :
    P f ∧ f.Known (s.registry.Knows F) :=
  ⟨hf.1, fun id hid => h.knows id (hf.2 id hid)⟩

/-- What a host does keeps all references to known classes. -/
lemma upheld (hH : ∀ f, H f → P f ∧ f.Known (r.Knows F)) :
    Interpreter.Upheld (.knowing F H) (State.KnowingFrom F P r) where
  registered := fun h => .inl (by simp [h])
  declared := fun {s name kind v} hs hv => by
    have hgrows := Grows.withScope s Interpreter.root.scope
      ((s.scopeAt Interpreter.root.scope).declare name kind v)
    refine hs.of_keeps ⟨hgrows, hs.knowing.of_grows hgrows (fun v' hv' => ?_) (fun _ _ => .inl)
      hs.knowing.parent ⟨hs.knowing.host.function, hs.knowing.host.cls⟩⟩
    rcases hv'.of_declare with hold | rfl
    · exact .inl hold
    · exact .inr hv
  function := fun {s f} hs hf => by
    have hmeets : (Function.host f).Meets fun f => P f ∧ f.Known (s.registry.Knows F) :=
      hs.host (hH f hf)
    have hgrows := Grows.addFunction s (.host f)
    refine hs.of_keeps ⟨hgrows, hs.knowing.of_grows hgrows (fun v hv => ?_)
      (fun id f' hget => .inr ?_) hs.knowing.parent (hs.knowing.host.addFunction hmeets)⟩
    · rcases hv.of_addFunction with hold | ⟨owner, m, heq⟩
      · exact .inl hold
      · cases heq
    · exact hs.knowing.function_of_addFunction (f := .host f) trivial id f' hget
  cls := fun {s h cls} hs hh hstatic hparent hcls => by
    have hgrows := Grows.register s cls
    have hfields : cls.staticFields = .ofList h.staticFields ∧ cls.parent = h.parent := by
      refine HostClass.toClass_induct hcls (P := fun c => c.staticFields = .ofList h.staticFields ∧
        c.parent = h.parent) ⟨rfl, rfl⟩ fun entry _ c hc => ?_
      cases entry.1 <;> exact hc
    have hmeets : cls.Meets fun f => P f ∧ f.Known (s.registry.Knows F) :=
      (hh.imp fun f hf => hs.host (hH f hf)).toClass hcls
    refine hs.of_keeps ⟨hgrows, hs.knowing.of_grows hgrows (fun v hv => ?_) (fun _ _ => .inl)
      (hs.knowing.parent.register fun p hp => ?_) (hs.knowing.host.register hmeets)⟩
    · rcases hv.of_register with hold | ⟨key, hkey⟩
      · exact .inl hold
      · rw [hfields.1] at hkey
        exact .inr (hgrows.known_value (hstatic _ (Table.mem_of_get?_ofList hkey)))
    · rw [hfields.2] at hp
      exact .inl (hparent p hp)
  cancel := fun {s} hs => by
    refine hs.of_keeps ⟨.cancel s, hs.knowing.of_grows (.cancel s)
      (fun v hv => .inl (hv.of_eq rfl rfl rfl)) (fun _ _ => .inl) hs.knowing.parent
      ⟨hs.knowing.host.function, hs.knowing.host.cls⟩⟩
  request := fun bound hs hm =>
    hs.of_keeps (Regime.knowing_after (hm.served Regime.serves_knowing hs.knowing bound).left)

end State.KnowingFrom

/-- A new interpreter holds nothing. -/
lemma State.Knowing.initial (config : Config) {services : Services}
    (hoperators : ∀ id, services.operators.Brings id → F id) :
    (State.opened { config, services }).Knowing F P := by
  have hnone : ∀ v, ¬(State.opened { config, services }).Stores v := by
    intro v hv
    cases hv with
    | @binding id name kind _ hb =>
      simp only [State.scopeAt, State.opened, Array.getElem?_push] at hb
      split at hb <;> cases hb
    | element he => simp [State.opened, Heap.array] at he
    | property hp => simp [State.opened, Heap.object, Table.get?] at hp
    | field hf => simp [State.opened, Heap.field?, Heap.instance?] at hf
    | static hcls => simp [State.opened, Registry.get?] at hcls
    | receiver hid => simp [State.opened, Heap.function?] at hid
  refine ⟨fun v hv => absurd hv (hnone v), fun id f hf => ?_, fun id cls p hcls => ?_,
    .initial config services, fun id hid => .inr (hoperators id hid)⟩
  · simp [State.opened, Heap.function?] at hf
  · simp [State.opened, Registry.get?] at hcls

lemma HostFunction.known_of_mem_builtins {f : HostFunction} (hf : f ∈ Interpreter.builtins)
    (K : ClassId → Prop) : f.Known K :=
  fun id hid => absurd hid (Interpreter.not_brings_of_mem_builtins hf id)

/-- With only the functions that every script has, known classes are all that there is in the states that a
host can bring about. -/
lemma State.Knowing.of_reached {s : State}
    (hs : Interpreter.Reached (.knowing F (· ∈ Interpreter.builtins)) s) :
    s.Knowing F (· ∈ Interpreter.builtins) := by
  have hforeign : ∀ id, Registry.Knows F {} id → F id :=
    fun id hid => hid.elim (fun h => by simp [Registry.get?] at h) (fun h => h)
  refine (hs.holds (State.KnowingFrom.upheld (r := {}) fun f hf => ⟨hf, ?_⟩) (fun f hf => hf)
    fun config services hoperators => ⟨.initial config fun id hid => ?_, fun id hid => ?_⟩).knowing
  · exact HostFunction.known_of_mem_builtins hf _
  · exact hforeign id (hoperators id hid)
  · exact .inr (hforeign id hid)

end Sessions

/-! ## Registered classes -/

section Anchored

variable (r : Registry)

/-- A value refers to no class, or to one that is registered. -/
def Value.Anchored (v : Value) : Prop := ∀ id, v = .classRef id → (r.get? id).isSome

/-- So do `this` in a context and the class whose code runs there. -/
def Context.Anchored (c : Context) : Prop :=
  (∀ v ∈ c.this, v.Anchored r) ∧ ∀ id ∈ c.owner, (r.get? id).isSome

/-- So do a receiver and the class that stands for it where there is none. -/
def AnchoredReceiver (owner : ClassId) (receiver : Option Value) : Prop :=
  (r.get? owner).isSome ∧ ∀ v ∈ receiver, v.Anchored r

def Frame.Anchored : Frame → Prop
  | .function closure => closure.Anchored r
  | .method _ owner receiver => AnchoredReceiver r owner receiver

/-- All that a task is given refers to registered classes. -/
structure Task.Anchored (t : Task) : Prop where
  values : ∀ v ∈ t.values, v.Anchored r
  context : match t with
    | .evaluate c _ | .assign c _ _ | .execute c _ | .sequence c _ | .call c _ _ | .setUp c _ _ _
    | .getMember c _ _ => c.Anchored r
    | .invoke frame _ _ => frame.Anchored r
    | .host _ request => request.context.Anchored r

end Anchored

/-- There are no functions of the host but those that every script has, and the host hands in no
references but those to registered classes. -/
def Terms.plain : Terms where
  host := (· ∈ Interpreter.builtins)
  knows := fun r id => (r.get? id).isSome

lemma Context.anchored_root (r : Registry) : Interpreter.root.Anchored r := ⟨nofun, nofun⟩

/-- All that a state holds refers to registered classes, and there are no functions of the host but those
that every script has. -/
def State.Anchored (s : State) : Prop := s.Knowing (fun _ => False) (· ∈ Interpreter.builtins)

lemma Task.Anchored.known {r : Registry} {t : Task} (h : t.Anchored r)
    (hbuilt : ∀ id ∈ t.built?, (r.get? id).isSome) (hhost : t.Meets (· ∈ Interpreter.builtins)) :
    t.Known (r.Knows fun _ => False) := by
  have hvalue : ∀ v : Value, v.Anchored r → v.Known (r.Knows fun _ => False) :=
    fun v hv id hid => .inl (hv id hid)
  have haround : ∀ c : Context, c.Anchored r → c.Known (r.Knows fun _ => False) := fun c hc =>
    ⟨fun v hv => hvalue v (hc.1 v hv), fun id hid => .inl (hc.2 id hid)⟩
  refine ⟨fun id hid => .inl (hbuilt id hid), fun v hv => hvalue v (h.values v hv), ?_, ?_⟩
  · have hcontext := h.context
    cases t with
    | invoke frame =>
      cases frame with
      | function => exact haround _ hcontext
      | method => exact ⟨.inl hcontext.1, fun v hv => hvalue v (hcontext.2 v hv)⟩
    | _ => exact haround _ hcontext
  · cases t with
    | host f => exact HostFunction.known_of_mem_builtins hhost _
    | _ => trivial

namespace State.Anchored

variable {s : State}

lemma meets (h : s.Anchored) : s.Meets (· ∈ Interpreter.builtins) := h.host.imp fun _ hf => hf.1

/-- All chains of classes end. -/
lemma grounded (h : s.Anchored) : s.registry.Grounded := by
  refine Registry.grounded_of_lt ?_
  rintro a b ⟨cls, hcls, hb⟩
  exact (h.parent a cls b hcls hb).elim id fun hforeign => hforeign.1.elim

/-- Chains of classes end as long as code runs. -/
lemma grounded_after {t : Task} (hs : s.Anchored) (ht : t.Anchored s.registry)
    (hhost : t.Meets (· ∈ Interpreter.builtins)) (n : Nat) :
    (((Evaluator.within n).perform t).after s).registry.Grounded := by
  by_cases hbuilt : ∀ id ∈ t.built?, (s.registry.get? id).isSome
  · have hleft := (Evaluator.within_heeds (.knowing _ _) n).perform t s hs (ht.known hbuilt hhost)
    exact State.Anchored.grounded (Regime.knowing_after hleft).knowing
  · -- An instance of a class that is not registered is not set up at all.
    obtain ⟨c, i, id, args, rfl, hid⟩ : ∃ c i id args, t = .setUp c id i args ∧
        s.registry.get? id = none := by
      cases t with
      | setUp c id i args => exact ⟨c, i, id, args, rfl, by simpa [Task.built?] using hbuilt⟩
      | _ => exact absurd nofun hbuilt
    have hafter : ((Evaluator.within n).perform (.setUp c id i args)).after s = s := by
      cases n with
      | zero => rfl
      | succ n => exact Exec.after_bind_of_error (Exec.run_classOf_none hid)
    rw [hafter]
    exact hs.grounded

/-- In the states that a host can bring about, all references are to registered classes. -/
theorem of_reached (hs : Interpreter.Reached .plain s) : s.Anchored := by
  have hknows : Terms.plain = .knowing (fun _ => False) (· ∈ Interpreter.builtins) := by
    simp [Terms.plain, Terms.knowing, Registry.Knows]
  rw [hknows] at hs
  exact State.Knowing.of_reached hs

end State.Anchored

end ScriptLang
