/-
What only grows.

Whatever code does, scopes, functions, instances and classes are never removed, an instance keeps its
class and the fields that it has, and a class keeps everything but the values of its own fields.  The
options and the services stay as they are.  `State.Grows` says all this of two states, and every change
that a step can make is of this kind (`Change.grows`).
-/
import ScriptLang.Proofs.Class.Chain
import ScriptLang.Proofs.Eval.Moves

namespace ScriptLang

/-- An assignment replaces the value of a variable or parameter that has one. -/
lemma Scope.of_assign {a b : Scope} {name : String} {v : Value} (h : a.assign name v = .ok (some b)) :
    ∃ kind old, a.bindings.get? name = some ⟨kind, some old⟩ ∧ kind.isMutable = true ∧
      b = a.declare name kind v := by
  unfold Scope.assign at h
  split at h
  · cases h
  · cases h
  next kind old hget =>
    split at h
    next hmutable =>
      cases h
      exact ⟨kind, old, hget, hmutable, rfl⟩
    next => cases h

/-! ## Drafts -/

lemma Class.staticFields_addMember (cls : Class) (side : Side) (key : String) (m : Member) :
    (cls.addMember side key m).staticFields = cls.staticFields := by
  cases side <;> rfl

lemma Class.name_addMember (cls : Class) (side : Side) (key : String) (m : Member) :
    (cls.addMember side key m).name = cls.name := by
  cases side <;> rfl

lemma Class.parent_addMember (cls : Class) (side : Side) (key : String) (m : Member) :
    (cls.addMember side key m).parent = cls.parent := by
  cases side <;> rfl

namespace Draft

variable {d d' draft : Draft} {m : MemberDecl} {decl : ClassDecl} {parent : Option ClassId} {c : Context}

/-- What adding a member makes of a draft. -/
inductive Adds (d : Draft) (m : MemberDecl) : Draft → Prop
  | field {initializer} : m.form = .field initializer →
      Adds d m (d.addField (.ofStatic m.isStatic) (Class.key m.visibility d.name m.name) initializer)
  | method {f} : m.form = .method f →
      Adds d m (d.addMember (.ofStatic m.isStatic) (Class.key m.visibility d.name m.name)
        (.method (.script f)))
  | constructor {f} : m.form = .constructor f → Adds d m { d with constructor := some f }
  | property {getter setter initializer} : m.form = .property getter setter initializer →
      (isAuto getter || isAuto setter) = false →
      Adds d m (d.addMember (.ofStatic m.isStatic) (Class.key m.visibility d.name m.name)
        (.property (getter.map (accessor (autoGetter m))) (setter.map (accessor (autoSetter m)))))
  /-- A property with automatic accessors has a hidden field. -/
  | autoProperty {getter setter initializer} : m.form = .property getter setter initializer →
      (isAuto getter || isAuto setter) = true →
      Adds d m ((d.addField (.ofStatic m.isStatic)
          (Class.key .isPrivate d.name (Class.hiddenName m.name)) initializer).addMember
        (.ofStatic m.isStatic) (Class.key m.visibility d.name m.name)
        (.property (getter.map (accessor (autoGetter m))) (setter.map (accessor (autoSetter m)))))
  | indexer {getter setter} : m.form = .indexer getter setter →
      Adds d m (d.addMember (.ofStatic m.isStatic)
        (Class.key m.visibility d.name MemberDecl.indexerName)
        (.indexer (getter.map .script) (setter.map .script)))

lemma name_addField (d : Draft) (side : Side) (key : String) (initializer : Option Expr) :
    (d.addField side key initializer).name = d.name := by
  cases side <;> rfl

lemma parent_addField (d : Draft) (side : Side) (key : String) (initializer : Option Expr) :
    (d.addField side key initializer).partialClass.parent = d.partialClass.parent := by
  cases side <;> rfl

/-- A member changes neither the name of the class nor what it extends. -/
lemma Adds.name_eq (h : d.Adds m d') : d'.name = d.name := by
  cases h with
  | field => exact name_addField _ _ _ _
  | constructor => rfl
  | autoProperty => exact (Class.name_addMember _ _ _ _).trans (name_addField _ _ _ _)
  | method | property | indexer => exact Class.name_addMember _ _ _ _

lemma Adds.parent_eq (h : d.Adds m d') : d'.partialClass.parent = d.partialClass.parent := by
  cases h with
  | field => exact parent_addField _ _ _ _
  | constructor => rfl
  | autoProperty => exact (Class.parent_addMember _ _ _ _).trans (parent_addField _ _ _ _)
  | method | property | indexer => exact Class.parent_addMember _ _ _ _

lemma exists_ok_of_bind {α β : Type} {x : Except Cause α} {f : α → Except Cause β} {b : β}
    (h : x >>= f = .ok b) : ∃ a, x = .ok a ∧ f a = .ok b := by
  cases x with
  | error => cases h
  | ok a => exact ⟨a, rfl, h⟩

lemma adds_of_add (h : d.add m = .ok d') : d.Adds m d' := by
  unfold add at h
  dsimp only at h
  cases hform : m.form with
  | field initializer =>
    rw [hform] at h
    obtain ⟨_, -, h⟩ := exists_ok_of_bind h
    cases h
    exact .field hform
  | method decl =>
    rw [hform] at h
    obtain ⟨_, -, h⟩ := exists_ok_of_bind h
    cases h
    exact .method hform
  | constructor decl =>
    rw [hform] at h
    dsimp only at h
    split at h
    · cases h
    · cases h
      exact .constructor hform
  | property getter setter initializer =>
    rw [hform] at h
    obtain ⟨_, -, h⟩ := exists_ok_of_bind h
    obtain ⟨d₁, hhidden, h⟩ := exists_ok_of_bind h
    cases h
    unfold addHiddenField at hhidden
    dsimp only at hhidden
    split at hhidden
    · next hauto =>
      obtain ⟨_, -, hhidden⟩ := exists_ok_of_bind hhidden
      cases hhidden
      exact .autoProperty hform hauto
    · next hauto =>
      split at hhidden
      · cases hhidden
      · cases hhidden
        exact .property hform (Bool.eq_false_iff.mpr hauto)
  | indexer getter setter =>
    rw [hform] at h
    dsimp only at h
    split at h
    · cases h
    · cases h
      exact .indexer hform

/-- What holds of the empty draft and is kept by every member, which is then done, holds of the whole
draft when all members are done. -/
lemma ofDecl_visits {P : List MemberDecl → Draft → Prop} (h : ofDecl decl parent c = .ok draft)
    (hstart : P [] (start decl parent c))
    (hadds : ∀ done, ∀ m ∈ decl.members, ∀ d d', P done d → d.Adds m d' → P (done ++ [m]) d') :
    P decl.members draft := by
  have hfold : ∀ (ms done : List MemberDecl) (d : Draft), (∀ m ∈ ms, m ∈ decl.members) → P done d →
      ms.foldlM add d = .ok draft → P (done ++ ms) draft := by
    intro ms
    induction ms with
    | nil =>
      intro done d _ hd hrest
      cases hrest
      simpa using hd
    | cons m ms ih =>
      intro done d hms hd hrest
      obtain ⟨d₁, hadd, hrest⟩ := exists_ok_of_bind hrest
      have hd₁ : P (done ++ [m]) d₁ := hadds done m (hms m List.mem_cons_self) d d₁ hd (adds_of_add hadd)
      simpa using ih (done ++ [m]) d₁ (fun m' hm' => hms m' (List.mem_cons_of_mem m hm')) hd₁ hrest
  exact hfold decl.members [] _ (fun _ hm => hm) hstart h

/-- What holds of the empty draft and is kept by every member holds of the whole draft. -/
lemma ofDecl_induct {P : Draft → Prop} (h : ofDecl decl parent c = .ok draft)
    (hstart : P (start decl parent c))
    (hadds : ∀ m ∈ decl.members, ∀ d d', P d → d.Adds m d' → P d') : P draft :=
  ofDecl_visits (P := fun _ => P) h hstart fun _ => hadds

lemma contains_addField {side : Side} {key : String} {initializer : Option Expr}
    (h : ∀ entry ∈ d.staticInitializers, d.partialClass.staticFields.contains entry.1 = true) :
    ∀ entry ∈ (d.addField side key initializer).staticInitializers,
      (d.addField side key initializer).partialClass.staticFields.contains entry.1 = true := by
  intro entry hmem
  cases side with
  | ofInstance => exact h entry hmem
  | ofClass =>
    simp only [addField, Class.setField, Table.contains, Table.get?_insert] at hmem ⊢
    split
    · rfl
    · rcases List.mem_append.mp hmem with hmem | hmem
      · exact h entry hmem
      · cases initializer <;> simp_all

lemma contains_addMember {side : Side} {key : String} {member : Member}
    (h : ∀ entry ∈ d.staticInitializers, d.partialClass.staticFields.contains entry.1 = true) :
    ∀ entry ∈ (d.addMember side key member).staticInitializers,
      (d.addMember side key member).partialClass.staticFields.contains entry.1 = true := by
  cases side <;> exact h

/-- A field of the class itself that has an initial value is there. -/
lemma contains_of_mem_staticInitializers (h : ofDecl decl parent c = .ok draft) :
    ∀ entry ∈ draft.staticInitializers,
      draft.partialClass.staticFields.contains entry.1 = true := by
  refine ofDecl_induct h (P := fun d => ∀ entry ∈ d.staticInitializers,
    d.partialClass.staticFields.contains entry.1 = true) nofun fun m _ d d' hd hadds => ?_
  cases hadds with
  | field => exact contains_addField hd
  | constructor => exact hd
  | autoProperty => exact contains_addMember (contains_addField hd)
  | method | property | indexer => exact contains_addMember hd

end Draft

/-! ## States that grow -/

lemma State.scopeAt_withScope (s : State) (id other : ScopeId) (scope : Scope) :
    (s.withScope id scope).scopeAt other = scope ∧ other = id ∨
      (s.withScope id scope).scopeAt other = s.scopeAt other := by
  simp only [State.scopeAt, State.withScope, Array.getElem?_setIfInBounds]
  split
  next heq =>
    split
    next => exact .inl ⟨rfl, congrArg ScopeId.mk heq.symm⟩
    next hle =>
      refine .inr ?_
      rw [Array.getElem?_eq_none (by omega)]
  next => exact .inr rfl

/-- The class `cls'` is `cls`, apart from the values of its own fields. -/
structure Class.Revised (cls cls' : Class) : Prop where
  eq : cls' = { cls with staticFields := cls'.staticFields }
  keys : ∀ key, cls'.staticFields.contains key = cls.staticFields.contains key

namespace Class.Revised

variable {cls cls' cls'' : Class}

lemma refl (cls : Class) : cls.Revised cls := ⟨rfl, fun _ => rfl⟩

lemma trans (h : cls.Revised cls') (h' : cls'.Revised cls'') : cls.Revised cls'' where
  eq := by rw [h'.eq, h.eq]
  keys := fun key => (h'.keys key).trans (h.keys key)

lemma name (h : cls.Revised cls') : cls'.name = cls.name := by rw [h.eq]

lemma parent (h : cls.Revised cls') : cls'.parent = cls.parent := by rw [h.eq]

lemma origin (h : cls.Revised cls') : cls'.origin = cls.origin := by rw [h.eq]

lemma instanceFields (h : cls.Revised cls') : cls'.instanceFields = cls.instanceFields := by
  rw [h.eq]

lemma members (h : cls.Revised cls') (side : Side) : cls'.members side = cls.members side := by
  rw [h.eq]
  cases side <;> rfl

lemma hasField (h : cls.Revised cls') (side : Side) (key : String) :
    cls'.hasField side key = cls.hasField side key := by
  cases side with
  | ofInstance => rw [Class.hasField, Class.hasField, h.instanceFields]
  | ofClass => exact h.keys key

lemma setField {key : String} (value : Value) (h : cls.staticFields.contains key = true) :
    cls.Revised (cls.setField key value) where
  eq := rfl
  keys := fun key' => by
    simp only [Class.setField, Table.contains, Table.get?_insert] at h ⊢
    split
    · next heq =>
      subst heq
      exact h.symm
    · rfl

end Class.Revised

namespace State

variable {s s' s'' : State} {id : ClassId} {i : InstanceId}

/-- The state `s'` holds all that `s` holds, and differs from it only in what it holds besides and in
the values behind names, keys and indices. -/
structure Grows (s s' : State) : Prop where
  config : s'.config = s.config
  services : s'.services = s.services
  depth : s'.depth = s.depth
  scopes : s.scopes.size ≤ s'.scopes.size
  function : ∀ {id f}, s.heap.function? id = some f → s'.heap.function? id = some f
  object : ∀ {i inst}, s.heap.instance? i = some inst → ∃ inst', s'.heap.instance? i = some inst' ∧
    inst'.ofClass = inst.ofClass ∧
      ∀ key, inst.fields.contains key = true → inst'.fields.contains key = true
  cls : ∀ {id cls}, s.registry.get? id = some cls →
    ∃ cls', s'.registry.get? id = some cls' ∧ cls.Revised cls'
  cancelled : s.cancelled = true → s'.cancelled = true
  output : s.output.toList <+: s'.output.toList

namespace Grows

lemma refl (s : State) : s.Grows s where
  config := rfl
  services := rfl
  depth := rfl
  scopes := Nat.le_refl _
  function := id
  object := fun h => ⟨_, h, rfl, fun _ => id⟩
  cls := fun h => ⟨_, h, .refl _⟩
  cancelled := id
  output := List.prefix_rfl

lemma trans (h : s.Grows s') (h' : s'.Grows s'') : s.Grows s'' where
  config := h'.config.trans h.config
  services := h'.services.trans h.services
  depth := h'.depth.trans h.depth
  scopes := h.scopes.trans h'.scopes
  function := fun hf => h'.function (h.function hf)
  object := fun hi => by
    obtain ⟨inst', hi', hclass, hkeys⟩ := h.object hi
    obtain ⟨inst'', hi'', hclass', hkeys'⟩ := h'.object hi'
    exact ⟨inst'', hi'', hclass'.trans hclass, fun key hkey => hkeys' key (hkeys key hkey)⟩
  cls := fun hc => by
    obtain ⟨cls', hc', hrevised⟩ := h.cls hc
    obtain ⟨cls'', hc'', hrevised'⟩ := h'.cls hc'
    exact ⟨cls'', hc'', hrevised.trans hrevised'⟩
  cancelled := fun hc => h'.cancelled (h.cancelled hc)
  output := h.output.trans h'.output

/-- What was done one level deeper counts when the level is left. -/
lemma left (h : s.entered.Grows s') : s.Grows s'.left where
  config := h.config
  services := h.services
  depth := by
    have hdepth : s'.depth = s.depth + 1 := h.depth
    show s'.depth - 1 = s.depth
    omega
  scopes := h.scopes
  function := h.function
  object := h.object
  cls := h.cls
  cancelled := h.cancelled
  output := h.output

lemma opened (s : State) : s.Grows s.opened :=
  { refl s with scopes := by simp [State.opened] }

lemma cancel (s : State) : s.Grows { s with cancelled := true } :=
  { refl s with cancelled := fun _ => rfl }

lemma turned (s : State) : s.Grows s.turned := { refl s with }

lemma withScope (s : State) (id : ScopeId) (scope : Scope) : s.Grows (s.withScope id scope) :=
  { refl s with scopes := by simp [State.withScope] }

lemma withHeap {heap : Heap}
    (hf : ∀ {id f}, s.heap.function? id = some f → heap.function? id = some f)
    (hi : ∀ {i inst}, s.heap.instance? i = some inst → ∃ inst', heap.instance? i = some inst' ∧
      inst'.ofClass = inst.ofClass ∧
        ∀ key, inst.fields.contains key = true → inst'.fields.contains key = true) :
    s.Grows (s.withHeap heap) :=
  { refl s with function := hf, object := hi }

lemma withRegistry {registry : Registry} (h : ∀ {id cls}, s.registry.get? id = some cls →
    ∃ cls', registry.get? id = some cls' ∧ cls.Revised cls') : s.Grows (s.withRegistry registry) :=
  { refl s with cls := h }

lemma addFunction (s : State) (f : Function) : s.Grows (s.withHeap (s.heap.addFunction f).2) := by
  refine withHeap (fun {id f'} h => ?_) fun h => ⟨_, h, rfl, fun _ => id⟩
  have hlt : id.index < s.heap.functions.size := (Array.getElem?_eq_some_iff.mp h).1
  simp only [Heap.function?, Heap.addFunction] at h ⊢
  rw [Array.getElem?_push_lt hlt, ← h]
  simp

lemma withInstance (s : State) (id : ClassId) : s.Grows (s.withInstance id) := by
  refine withHeap (fun h => h) fun {i inst} h => ⟨inst, ?_, rfl, fun _ => fun h => h⟩
  have hlt : i.index < s.heap.instances.size := (Array.getElem?_eq_some_iff.mp h).1
  simp only [Heap.instance?, Heap.addInstance] at h ⊢
  rw [Array.getElem?_push_lt hlt, ← h]
  simp

lemma setField (s : State) (i : InstanceId) (key : String) (value : Value) :
    s.Grows (s.withHeap (s.heap.setField i key value)) := by
  refine withHeap (fun h => h) fun {i' inst} h => ?_
  simp only [Heap.instance?, Heap.setField, Array.getElem?_modify] at h ⊢
  rw [h]
  split
  · refine ⟨_, rfl, rfl, fun key' hkey' => ?_⟩
    simp only [Table.contains, Table.get?_insert] at hkey' ⊢
    split
    · rfl
    · exact hkey'
  · exact ⟨inst, rfl, rfl, fun _ => id⟩

lemma register (s : State) (cls : Class) :
    s.Grows (s.withRegistry (s.registry.insert cls).2) :=
  withRegistry fun h => ⟨_, Registry.get?_insert_of_some h cls, .refl _⟩

/-- A field of a class itself that is there gets another value. -/
lemma setStaticField {cls : Class} {key : String} (value : Value)
    (hcls : s.registry.get? id = some cls) (hkey : cls.staticFields.contains key = true) :
    s.Grows (s.withRegistry (s.registry.modify id (·.setField key value))) := by
  refine withRegistry fun {id' cls'} h => ?_
  rw [Registry.get?_modify]
  split
  · next heq =>
    subst heq
    cases h.symm.trans hcls
    exact ⟨_, by rw [h]; rfl, .setField value hkey⟩
  · exact ⟨cls', h, .refl _⟩

lemma edge (h : s.Grows s') {a b : ClassId} (hab : s.registry.Edge a b) : s'.registry.Edge a b := by
  obtain ⟨cls, hcls, hparent⟩ := hab
  obtain ⟨cls', hcls', hrevised⟩ := h.cls hcls
  exact ⟨cls', hcls', hrevised.parent.trans hparent⟩

lemma classOf (h : s.Grows s') (hi : s.heap.classOf? i = some id) :
    s'.heap.classOf? i = some id := by
  obtain ⟨inst, hinst, hclass⟩ := Option.map_eq_some_iff.mp hi
  obtain ⟨inst', hinst', hclass', -⟩ := h.object hinst
  exact Option.map_eq_some_iff.mpr ⟨inst', hinst', hclass'.trans hclass⟩

lemma field (h : s.Grows s') {key : String} (hf : (s.heap.field? i key).isSome) :
    (s'.heap.field? i key).isSome := by
  obtain ⟨v, hv⟩ := Option.isSome_iff_exists.mp hf
  obtain ⟨inst, hinst, hget⟩ := Option.bind_eq_some_iff.mp hv
  obtain ⟨inst', hinst', -, hkeys⟩ := h.object hinst
  have hcontains := hkeys key (by simp [Table.contains, hget])
  simpa [Heap.field?, hinst', Table.contains] using hcontains

end Grows

lemma isSome_nextInstance (s : State) {id : ClassId} :
    ((s.withInstance id).heap.instance? s.nextInstance).isSome := by
  simp [withInstance, withHeap, nextInstance, Heap.addInstance, Heap.instance?]

/-- The state `s'` holds all that `s` holds, whatever the calls that are active. -/
def Persists (s s' : State) : Prop := s.Grows { s' with depth := s.depth }

lemma Grows.at_depth (h : s.Grows s') (depth : Nat) :
    ({ s with depth } : State).Grows { s' with depth } where
  config := h.config
  services := h.services
  depth := rfl
  scopes := h.scopes
  function := h.function
  object := h.object
  cls := h.cls
  cancelled := h.cancelled
  output := h.output

lemma Grows.persists (h : s.Grows s') : s.Persists s' := h.at_depth s.depth

lemma Persists.refl (s : State) : s.Persists s := Grows.refl s

lemma Persists.trans (h : s.Persists s') (h' : s'.Persists s'') : s.Persists s'' :=
  Grows.trans h (Grows.at_depth h' s.depth)

/-- The instance has the fields of the class and of all the classes above it. -/
inductive SetUpAs (s : State) (i : InstanceId) : ClassId → Prop
  | intro {id : ClassId} {cls : Class} : s.registry.get? id = some cls →
      (∀ f ∈ cls.instanceFields, (s.heap.field? i f.key).isSome) →
      (∀ p, cls.parent = some p → SetUpAs s i p) → SetUpAs s i id

lemma SetUpAs.of_eq (h : s.SetUpAs i id) (hheap : s'.heap = s.heap)
    (hregistry : s'.registry = s.registry) : s'.SetUpAs i id := by
  induction h with
  | intro hcls hfields _ ih => exact .intro (hregistry ▸ hcls) (hheap ▸ hfields) ih

lemma SetUpAs.mono (hs : s.Grows s') (h : s.SetUpAs i id) : s'.SetUpAs i id := by
  induction h with
  | intro hcls hfields _ ih =>
    obtain ⟨cls', hcls', hrevised⟩ := hs.cls hcls
    refine .intro hcls' (fun f hf => ?_) fun p hp => ih p (hrevised.parent.symm.trans hp)
    rw [hrevised.instanceFields] at hf
    exact hs.field (hfields f hf)

end State

/-! ## Every change lets the state grow -/

/-- Of the classes that a step has made, the fields with initial values are there. -/
lemma Made.contains {K : State → State → Prop} {t : Task} {s : State} {c : Context} {draft : Draft}
    {id : ClassId} {key : String} {e : Expr} (hK : ∀ s s', K s s' → s.Grows s')
    (h : Made K t s c draft id) (hkey : (key, e) ∈ draft.staticInitializers) :
    ∃ cls, s.registry.get? id = some cls ∧ cls.staticFields.contains key = true := by
  obtain ⟨decl, parent, -, hdraft⟩ := h.declared
  obtain ⟨s₁, hget, hkept⟩ := h.registered
  obtain ⟨cls, hcls, hrevised⟩ := (hK s₁ s hkept).cls hget
  refine ⟨cls, hcls, (hrevised.keys key).trans ?_⟩
  exact Draft.contains_of_mem_staticInitializers hdraft (key, e) hkey

theorem Change.grows {K : State → State → Prop} {V : Value → State → Prop} {t : Task}
    {s₀ s s' : State} (hK : ∀ s s', K s s' → s.Grows s') (h : Change K V t s₀ s s') :
    s.Grows s' := by
  cases h with
  | reserved | labelled | declared | parameter | assigned => exact .withScope s _ _
  | array | object | element | property =>
    exact .withHeap (fun h => h) fun h => ⟨_, h, rfl, fun _ => id⟩
  | closure | taken => exact .addFunction s _
  | fieldSetUp | fieldWritten | fieldOfHost => exact .setField s _ _ _
  | registered => exact .register s _
  | staticSetUp hmade hkey _ =>
    obtain ⟨cls, hcls, hcontains⟩ := hmade.contains hK hkey
    exact .setStaticField _ hcls hcontains
  | staticWritten _ hsees hside _ =>
    obtain ⟨caller, -, hsearch⟩ := hsees.search
    rw [hside] at hsearch
    obtain ⟨cls, -, hcls, hfield, -, -⟩ := Registry.field_of_search hsearch
    exact .setStaticField _ hcls hfield
  | printed => exact { State.Grows.refl s with output := by simp }
  | cancelled => exact .cancel s
  | turned => exact .turned s

/-! ## Functions of the host -/

section Hosts

variable {P : HostFunction → Prop} {s s' s₀ : State}

/-- A class that is declared brings in no function of the host. -/
lemma Draft.meets_of_ofDecl {decl : ClassDecl} {parent : Option ClassId} {c : Context} {draft : Draft}
    (h : Draft.ofDecl decl parent c = .ok draft) : (draft.finish c).Meets P := by
  have hdraft : draft.Meets P := by
    refine Draft.ofDecl_induct h (P := Draft.Meets P) ⟨trivial, fun side => ?_⟩
      fun m _ d d' hd hadds => ?_
    · cases side <;> exact fun _ _ hm => by cases hm
    · cases hadds with
      | field => exact hd.addField _ _ _
      | method => exact Class.Meets.addMember hd trivial
      | constructor => exact hd
      | property => exact Class.Meets.addMember hd ⟨meets_accessor _ _, meets_accessor _ _⟩
      | autoProperty =>
        exact Class.Meets.addMember (hd.addField _ _ _) ⟨meets_accessor _ _, meets_accessor _ _⟩
      | indexer => exact Class.Meets.addMember hd ⟨meets_script _, meets_script _⟩
  exact Class.Meets.of_members hdraft trivial fun side => by cases side <;> rfl

namespace State.Meets

/-- At the start there are no functions and no classes. -/
lemma initial (config : Config) (services : Services) :
    (State.opened { config, services }).Meets P := by
  refine ⟨fun id f hf => ?_, fun id cls hcls => ?_⟩
  · simp [State.opened, Heap.function?] at hf
  · simp [State.opened, Registry.get?] at hcls

lemma addFunction (hs : s.Meets P) {f : Function} (hf : f.Meets P) :
    (s.withHeap (s.heap.addFunction f).2).Meets P := by
  refine ⟨fun id f' hget => ?_, hs.cls⟩
  simp only [withHeap, Heap.function?, Heap.addFunction, Array.getElem?_push] at hget
  split at hget
  · cases hget
    exact hf
  · exact hs.function id f' hget

lemma register (hs : s.Meets P) {cls : Class} (hcls : cls.Meets P) :
    (s.withRegistry (s.registry.insert cls).2).Meets P := by
  refine ⟨hs.function, fun id cls' hget => ?_⟩
  simp only [withRegistry, Registry.get?_insert] at hget
  split at hget
  · cases hget
    exact hcls
  · exact hs.cls id cls' hget

lemma setStaticField (hs : s.Meets P) (id : ClassId) (key : String) (v : Value) :
    (s.withRegistry (s.registry.modify id (·.setField key v))).Meets P := by
  refine ⟨hs.function, fun id' cls' hget => ?_⟩
  simp only [withRegistry, Registry.get?_modify] at hget
  split at hget
  · obtain ⟨cls, hcls, rfl⟩ := Option.map_eq_some_iff.mp hget
    have hmeets := hs.cls id' cls hcls
    exact hmeets.of_members hmeets.origin fun side => by cases side <;> rfl
  · exact hs.cls id' cls' hget

end State.Meets

/-- What is found was declared in the script, or it is a function of the host that there was. -/
lemma Sees.meets {V : Value → Prop} {c : Context} {target : Target} {name : String}
    {found : Registry.Found} (hs : s.Meets P) (h : Sees V c s target name found) : found.Meets P := by
  obtain ⟨caller, -, hsearch⟩ := h.search
  exact Registry.meets_of_search hs.cls hsearch

lemma Member.Meets.accessors {member : Member} (h : member.Meets P) {m : Method}
    (hm : m ∈ member.accessors) : m.Meets P := by
  cases member with
  | method => cases hm
  | property getter setter | indexer getter setter =>
    rcases List.mem_append.mp hm with hm | hm
    · exact h.1 m (Option.mem_toList.mp hm)
    · exact h.2 m (Option.mem_toList.mp hm)

lemma Callable.meets {V : Value → Prop} {c : Context} {owner : ClassId} {m : Method}
    {receiver : Option Value} (hs : s.Meets P) (h : Callable V c s owner m receiver) : m.Meets P := by
  cases h with
  | taken hid => exact hs.function _ _ hid
  | accessor hsees hm => exact Member.Meets.accessors (hsees.meets hs) hm

/-- Whether a function of the host that is to be run satisfies `P`. -/
def Task.Meets (P : HostFunction → Prop) : Task → Prop
  | .host f _ => P f
  | _ => True

variable {K : State → State → Prop} {V : Value → State → Prop} {t t' : Task}

/-- No change brings in a function of the host. -/
theorem Change.meets (h : Change K V t s₀ s s') (hs : s.Meets P) : s'.Meets P := by
  cases h with
  | closure => exact hs.addFunction trivial
  | taken _ hsees =>
    have hmember : (Member.method _).Meets P := hsees.meets hs
    exact hs.addFunction hmember
  | registered _ hdraft => exact hs.register (Draft.meets_of_ofDecl hdraft)
  | staticSetUp | staticWritten => exact hs.setStaticField _ _ _
  | reserved | labelled | declared | parameter | assigned | array | object | element | property
  | fieldSetUp | fieldWritten | fieldOfHost | printed | cancelled | turned =>
    exact ⟨hs.function, hs.cls⟩

/-- Only those functions of the host are run that there are. -/
theorem Lead.meets (h : Lead K V t s₀ s t' s') (hs₀ : s₀.Meets P) (hs : s.Meets P) : t'.Meets P := by
  cases h with
  | called _ hcalls =>
    cases hcalls with
    | function | method => trivial
    | hostFunction hid => exact hs.function _ _ hid
    | hostMethod hcallable => exact hcallable.meets hs
  | hostConstructor hcls horigin =>
    have hmeets := (hs₀.cls _ _ hcls).origin
    rw [horigin] at hmeets
    exact hmeets _ rfl
  | turn =>
    unfold Stmt.turn
    split <;> trivial
  | _ => trivial

end Hosts

end ScriptLang
