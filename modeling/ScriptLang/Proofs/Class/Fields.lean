/-
Instances have the fields that their classes declare.

The fields of an instance are those that its class and the classes above it declare.  While an instance
is being set up it has some of them; once it is set up it has all of them, and it never gets another one.

A field is found from the class of an instance upward, or, through `super`, from above the class whose
code is running.  So code has to run for instances whose class is or extends the class of the code
(`Context.Fits`).  This holds of a method when it is called, and stays true of all closures made in it.
-/
import ScriptLang.Proofs.Eval.Landing
import ScriptLang.Proofs.Eval.Sessions

namespace ScriptLang

/-! ## Declared fields -/

/-- The class `id` or one above it declares a field of instances under a key. -/
def Registry.Declares (r : Registry) (id : ClassId) (key : String) : Prop :=
  ∃ owner cls, r.Above id owner ∧ r.get? owner = some cls ∧ ∃ f ∈ cls.instanceFields, f.key = key

/-- A field that is found is declared. -/
lemma Registry.declares_of_search {r : Registry} {caller : Option (ClassId × String)} {name key : String}
    {id start owner : ClassId} (habove : r.Above id start)
    (h : r.search caller .ofInstance name start = .found (.field owner key)) : r.Declares id key := by
  obtain ⟨cls, howner, hcls, hfield, -, -⟩ := Registry.field_of_search h
  obtain ⟨f, hf, hkey⟩ := List.any_eq_true.mp hfield
  exact ⟨owner, cls, habove.trans howner, hcls, f, hf, beq_iff_eq.mp hkey⟩

namespace State

variable {s s' : State} {i : InstanceId} {id owner : ClassId} {key : String}

/-- The class `owner` is that of the instance or one above it. -/
def OnChain (s : State) (i : InstanceId) (owner : ClassId) : Prop :=
  ∃ id, s.heap.classOf? i = some id ∧ s.registry.Above id owner

/-- The instances have no fields but those that their classes declare. -/
def FieldsDeclared (s : State) : Prop :=
  ∀ i inst key, s.heap.instance? i = some inst → inst.fields.contains key = true →
    s.registry.Declares inst.ofClass key

/-- The instance is set up, and it has exactly the fields that its class and those above declare. -/
def Complete (s : State) (i : InstanceId) : Prop :=
  ∃ inst, s.heap.instance? i = some inst ∧ s.SetUpAs i inst.ofClass ∧
    ∀ key, inst.fields.contains key = true ↔ s.registry.Declares inst.ofClass key

lemma Grows.declares (h : s.Grows s') (hkey : s.registry.Declares id key) :
    s'.registry.Declares id key := by
  obtain ⟨owner, cls, habove, hcls, f, hf, rfl⟩ := hkey
  obtain ⟨cls', hcls', hrevised⟩ := h.cls hcls
  exact ⟨owner, cls', habove.mono fun _ _ => h.edge, hcls', f, hrevised.instanceFields ▸ hf, rfl⟩

lemma Grows.onChain (h : s.Grows s') (hi : s.OnChain i owner) : s'.OnChain i owner := by
  obtain ⟨id, hid, habove⟩ := hi
  exact ⟨id, h.classOf hid, habove.mono fun _ _ => h.edge⟩

/-- An instance that is set up has all the fields that are declared. -/
lemma SetUpAs.isSome_field? (h : s.SetUpAs i id) (hkey : s.registry.Declares id key) :
    (s.heap.field? i key).isSome := by
  obtain ⟨owner, cls, habove, hcls, f, hf, rfl⟩ := hkey
  have howner : s.SetUpAs i owner := by
    clear hcls
    induction habove with
    | refl => exact h
    | tail _ hedge ih =>
      obtain ⟨cls, hcls, hp⟩ := hedge
      cases ih with
      | intro hcls' _ hparent =>
        cases hcls.symm.trans hcls'
        exact hparent _ hp
  cases howner with
  | intro hcls' hfields _ =>
    cases hcls.symm.trans hcls'
    exact hfields f hf

/-- The instance is set up as one of its class. -/
def Equipped (s : State) (i : InstanceId) : Prop := ∃ id, s.heap.classOf? i = some id ∧ s.SetUpAs i id

lemma Equipped.mono (h : s.Grows s') (hi : s.Equipped i) : s'.Equipped i := by
  obtain ⟨id, hid, hset⟩ := hi
  exact ⟨id, h.classOf hid, hset.mono h⟩

lemma Equipped.of_eq (h : s.Equipped i) (hheap : s'.heap = s.heap)
    (hregistry : s'.registry = s.registry) : s'.Equipped i := by
  obtain ⟨id, hid, hset⟩ := h
  exact ⟨id, hheap ▸ hid, hset.of_eq hheap hregistry⟩

lemma Complete.equipped (h : s.Complete i) : s.Equipped i := by
  obtain ⟨inst, hinst, hset, -⟩ := h
  exact ⟨inst.ofClass, by simp [Heap.classOf?, hinst], hset⟩

/-- Where only declared fields are, an instance that is set up has exactly those. -/
lemma FieldsDeclared.complete (hs : s.FieldsDeclared) (h : s.Equipped i) : s.Complete i := by
  obtain ⟨id, hid, hset⟩ := h
  obtain ⟨inst, hinst, rfl⟩ := Option.map_eq_some_iff.mp hid
  refine ⟨inst, hinst, hset, fun key => ⟨hs i inst key hinst, fun hkey => ?_⟩⟩
  have hfield := hset.isSome_field? hkey
  simpa [Heap.field?, hinst, Table.contains] using hfield

end State

/-! ## Code that fits its receiver -/

/-- Where code of a class runs for an instance, the class is that of the instance or one above it. -/
def Context.Fits (c : Context) (s : State) : Prop :=
  ∀ owner i, c.owner = some owner → c.this = some (.instanceRef i) → s.OnChain i owner

/-- A receiver that is an instance has the class `owner` or one below it. -/
def FitsReceiver (owner : ClassId) (receiver : Option Value) (s : State) : Prop :=
  ∀ i, receiver = some (.instanceRef i) → s.OnChain i owner

/-- What running a function needs. -/
def Function.Fits (s : State) : Function → Prop
  | .script _ closure => closure.Fits s
  | .host _ => True
  | .bound owner _ receiver => FitsReceiver owner receiver s

/-- What a call needs. -/
def Frame.Fits (s : State) : Frame → Prop
  | .function closure => closure.Fits s
  | .method _ owner receiver => FitsReceiver owner receiver s

/-- A function of the host leaves fields alone.  In strict runs it also hands on all faults, so that no
construction fails without the run failing. -/
def HostFunction.LeavesFields (strict : Prop) (f : HostFunction) : Prop :=
  ¬f.SetsFields ∧ (strict → f.Relays)

/-- What a task needs: code that fits, and no function of the host that sets fields. -/
def Task.Fits (strict : Prop) (s : State) : Task → Prop
  | .evaluate c _ => c.Fits s
  | .assign c _ _ => c.Fits s
  | .execute c _ => c.Fits s
  | .sequence c _ => c.Fits s
  | .call c _ _ => c.Fits s
  | .invoke frame _ _ => frame.Fits s
  | .host f request => f.LeavesFields strict ∧ request.context.Fits s
  | .setUp c id i _ => c.Fits s ∧ s.OnChain i id
  | .getMember c _ _ => c.Fits s

variable {strict : Prop} {s s' s₀ : State} {c : Context} {owner : ClassId} {receiver : Option Value}

lemma Context.Fits.mono (h : s.Grows s') (hc : c.Fits s) : c.Fits s' :=
  fun owner i howner hthis => h.onChain (hc owner i howner hthis)

/-- The depth of calls does not matter. -/
lemma Context.Fits.persists (hc : c.Fits s) (h : s.Persists s') : c.Fits s' := by
  have hlater : c.Fits { s' with depth := s.depth } := hc.mono h
  exact hlater

lemma FitsReceiver.mono (h : s.Grows s') (hr : FitsReceiver owner receiver s) :
    FitsReceiver owner receiver s' :=
  fun i hi => h.onChain (hr i hi)

lemma Function.Fits.mono {f : Function} (h : s.Grows s') (hf : f.Fits s) : f.Fits s' := by
  cases f with
  | script => exact Context.Fits.mono h hf
  | host => trivial
  | bound => exact FitsReceiver.mono h hf

/-- The context of a method fits if its receiver does. -/
lemma Context.fits_method {scope : ScopeId} (hr : FitsReceiver owner receiver s) :
    (Context.method scope c owner receiver).Fits s := by
  intro owner' i howner hthis
  cases howner
  cases receiver with
  | none => cases hthis
  | some v =>
    cases hthis
    exact hr i rfl

lemma Frame.Fits.context {frame : Frame} (h : frame.Fits s) (scope : ScopeId) :
    (frame.context scope).Fits s := by
  cases frame with
  | function => exact h
  | method => exact Context.fits_method h

/-- The receiver of what is found fits the class that declares it. -/
lemma Sees.fitsReceiver {V : Value → Prop} {target : Target} {name : String} {found : Registry.Found}
    (hc : c.Fits s) (h : Sees V c s target name found) :
    FitsReceiver target.start target.receiver s := by
  intro i hi
  cases h.isOpen with
  | @value v _ _ hv =>
    cases v with
    | instanceRef i' =>
      obtain ⟨id, hid, rfl⟩ := Option.map_eq_some_iff.mp hv
      cases hi
      exact ⟨id, hid, .refl _ _⟩
    | classRef =>
      cases hv
      cases hi
    | _ => cases hv
  | @super owner cls parent howner hcls hparent =>
    unfold Context.superTarget at hi ⊢
    split at hi
    next i' hthis =>
      cases hi
      obtain ⟨id, hid, habove⟩ := hc owner i howner hthis
      exact ⟨id, hid, habove.parent hcls hparent⟩
    next => cases hi

lemma Sees.fits_member {V : Value → Prop} {target : Target} {name : String} {m : Member}
    (hc : c.Fits s) (h : Sees V c s target name (.member owner m)) :
    FitsReceiver owner target.receiver s := by
  intro i hi
  obtain ⟨id, hid, habove⟩ := h.fitsReceiver hc i hi
  obtain ⟨caller, -, hsearch⟩ := h.search
  obtain ⟨cls, key, howner, -, -, -⟩ := Registry.member_of_search hsearch
  exact ⟨id, hid, habove.trans howner⟩

/-- A field that code finds in an instance is one that its classes declare. -/
lemma Sees.declares {V : Value → Prop} {target : Target} {name key : String} {i : InstanceId}
    {inst : Instance} (hc : c.Fits s) (h : Sees V c s target name (.field owner key))
    (hr : target.receiver = some (.instanceRef i)) (hinst : s.heap.instance? i = some inst) :
    s.registry.Declares inst.ofClass key := by
  obtain ⟨id, hid, habove⟩ := h.fitsReceiver hc i hr
  obtain ⟨caller, -, hsearch⟩ := h.search
  have hside : target.side = .ofInstance := by
    rcases h.isOpen.receiver with ⟨_, hside, -⟩ | ⟨-, hnone⟩
    · exact hside
    · rw [hr] at hnone
      cases hnone
  rw [hside] at hsearch
  have heq : id = inst.ofClass := by simpa [Heap.classOf?, hinst] using hid.symm
  rw [← heq]
  exact Registry.declares_of_search habove hsearch

/-! ## Tidy states -/

/-- Only declared fields are there, and code fits its receivers. -/
structure State.Tidy (strict : Prop) (s : State) : Prop where
  declared : s.FieldsDeclared
  meets : s.Meets (·.LeavesFields strict)
  function : ∀ id f, s.heap.function? id = some f → f.Fits s

/-- What is kept: fields are only added as they are declared, and in strict runs instances that are new are
set up. -/
structure State.KeepsFields (strict : Prop) (s s' : State) : Prop where
  grows : s.Grows s'
  tidy : s'.Tidy strict
  equipped : strict → ∀ i, (s'.heap.instance? i).isSome → (s.heap.instance? i).isSome ∨ s'.Equipped i

namespace State.Tidy

lemma of_grows (h : s.Tidy strict) (hgrows : s.Grows s') (hmeets : s'.Meets (·.LeavesFields strict))
    (hfunction : ∀ id f, s'.heap.function? id = some f → s.heap.function? id = some f ∨ f.Fits s')
    (hfield : ∀ i inst' key, s'.heap.instance? i = some inst' → inst'.fields.contains key = true →
      s'.registry.Declares inst'.ofClass key ∨ ∃ inst, s.heap.instance? i = some inst ∧
        inst.ofClass = inst'.ofClass ∧ inst.fields.contains key = true) : s'.Tidy strict where
  declared := fun i inst' key hinst hkey => by
    rcases hfield i inst' key hinst hkey with hdeclared | ⟨inst, hinst', hclass, hkey'⟩
    · exact hdeclared
    · rw [← hclass]
      exact hgrows.declares (h.declared i inst key hinst' hkey')
  meets := hmeets
  function := fun id f hf => by
    rcases hfunction id f hf with hf | hf
    · exact (h.function id f hf).mono hgrows
    · exact hf

/-- Nothing is changed in functions and instances. -/
lemma of_heap (h : s.Tidy strict) (hgrows : s.Grows s') (hmeets : s'.Meets (·.LeavesFields strict))
    (hfunctions : s'.heap.functions = s.heap.functions)
    (hinstances : s'.heap.instances = s.heap.instances) : s'.Tidy strict := by
  refine h.of_grows hgrows hmeets (fun id f hf => .inl ?_)
    fun i inst' key hinst hkey => .inr ⟨inst', ?_, rfl, hkey⟩
  · rwa [Heap.function?, hfunctions] at hf
  · rwa [Heap.instance?, hinstances] at hinst

lemma addFunction (h : s.Tidy strict) {f : Function} (hmeets : f.Meets (·.LeavesFields strict))
    (hf : f.Fits s) : (s.withHeap (s.heap.addFunction f).2).Tidy strict := by
  refine h.of_grows (.addFunction s f) (h.meets.addFunction hmeets) (fun id f' hget => ?_)
    fun i inst' key hinst hkey => .inr ⟨inst', hinst, rfl, hkey⟩
  simp only [State.withHeap, Heap.function?, Heap.addFunction, Array.getElem?_push] at hget
  split at hget
  · cases hget
    exact .inr (hf.mono (.addFunction s f))
  · exact .inl hget

/-- A declared field may be set. -/
lemma setField (h : s.Tidy strict) {i : InstanceId} {key : String} (v : Value)
    (hkey : ∀ inst, s.heap.instance? i = some inst → s.registry.Declares inst.ofClass key) :
    (s.withHeap (s.heap.setField i key v)).Tidy strict := by
  refine h.of_grows (.setField s i key v) ⟨h.meets.function, h.meets.cls⟩ (fun id f hf => .inl hf)
    fun i' inst' key' hinst hkey' => ?_
  simp only [State.withHeap, Heap.instance?, Heap.setField, Array.getElem?_modify] at hinst
  split at hinst
  next heq =>
    obtain ⟨inst, hget, rfl⟩ := Option.map_eq_some_iff.mp hinst
    have hi : i = i' := congrArg InstanceId.mk heq
    subst hi
    by_cases hsame : key' = key
    · subst hsame
      exact .inl (hkey inst hget)
    · refine .inr ⟨inst, hget, rfl, ?_⟩
      simpa [Table.contains, Table.get?_insert_of_ne _ _ hsame] using hkey'
  next => exact .inr ⟨inst', hinst, rfl, hkey'⟩

/-- An instance that is new has no fields. -/
lemma withInstance (h : s.Tidy strict) (id : ClassId) : (s.withInstance id).Tidy strict := by
  refine h.of_grows (.withInstance s id) ⟨h.meets.function, h.meets.cls⟩ (fun id f hf => .inl hf)
    fun i inst' key hinst hkey => ?_
  simp only [State.withInstance, State.withHeap, Heap.instance?, Heap.addInstance,
    Array.getElem?_push] at hinst
  split at hinst
  · cases hinst
    cases hkey
  · exact .inr ⟨inst', hinst, rfl, hkey⟩

end State.Tidy

/-! ## The regime -/

lemma State.classOf?_nextInstance (s : State) (id : ClassId) :
    (s.withInstance id).heap.classOf? s.nextInstance = some id := by
  simp [withInstance, withHeap, nextInstance, Heap.classOf?, Heap.instance?,
    Heap.addInstance]

namespace State.KeepsFields

variable {s'' : State} {id : ClassId}

lemma refl (h : s.Tidy strict) : s.KeepsFields strict s := ⟨.refl s, h, fun _ _ => .inl⟩

lemma trans (h : s.KeepsFields strict s') (h' : s'.KeepsFields strict s'') : s.KeepsFields strict s'' := by
  refine ⟨h.grows.trans h'.grows, h'.tidy, fun hstrict i hi => ?_⟩
  rcases h'.equipped hstrict i hi with hi' | hi'
  · exact (h.equipped hstrict i hi').imp_right (.mono h'.grows)
  · exact .inr hi'

/-- No instance is made. -/
lemma of_tidy (hgrows : s.Grows s') (h : s'.Tidy strict)
    (hinstance : ∀ i, (s'.heap.instance? i).isSome → (s.heap.instance? i).isSome) :
    s.KeepsFields strict s' :=
  ⟨hgrows, h, fun _ i hi => .inl (hinstance i hi)⟩

/-- An instance that was made and set up. -/
lemma constructed (h : (s.withInstance id).KeepsFields strict s') (hset : s'.SetUpAs s.nextInstance id) :
    s.KeepsFields strict s' := by
  refine ⟨(Grows.withInstance s id).trans h.grows, h.tidy, fun hstrict i hi => ?_⟩
  rcases h.equipped hstrict i hi with hi' | hi'
  · simp only [State.withInstance, State.withHeap, Heap.instance?, Heap.addInstance,
      Array.getElem?_push] at hi'
    split at hi'
    next heq =>
      have hi : i = s.nextInstance := congrArg InstanceId.mk heq
      subst hi
      exact .inr ⟨id, h.grows.classOf (s.classOf?_nextInstance id), hset⟩
    next => exact .inl hi'
  · exact .inr hi'

end State.KeepsFields

lemma State.Tidy.left (h : s.Tidy strict) : s.left.Tidy strict :=
  ⟨h.declared, ⟨h.meets.function, h.meets.cls⟩, h.function⟩

lemma State.Tidy.entered (h : s.Tidy strict) : s.entered.Tidy strict :=
  ⟨h.declared, ⟨h.meets.function, h.meets.cls⟩, h.function⟩

namespace Task.Fits

variable {t : Task}

/-- A task that fits is performed in a context that fits. -/
lemma around (h : t.Fits strict s) (hc : t.context? = some c) : c.Fits s := by
  cases t with
  | invoke => cases hc
  | host =>
    cases hc
    exact h.2
  | setUp =>
    cases hc
    exact h.1
  | _ =>
    cases hc
    exact h

lemma home (h : t.Fits strict s) (hc : t.home = some c) : c.Fits s := h.around (Task.context?_of_home hc)

lemma mono (h : s.Grows s') (ht : t.Fits strict s) : t.Fits strict s' := by
  cases t with
  | evaluate | assign | execute | sequence | call | getMember => exact Context.Fits.mono h ht
  | invoke frame =>
    cases frame with
    | function => exact Context.Fits.mono h ht
    | method => exact FitsReceiver.mono h ht
  | host => exact ⟨ht.1, ht.2.mono h⟩
  | setUp => exact ⟨ht.1.mono h, h.onChain ht.2⟩

/-- What a step evaluates is evaluated in a context that fits. -/
lemma evaluates {e : Expr} (h : t.Fits strict s) (ht : t.Evaluates s₀ c e) : c.Fits s := by
  cases ht with
  | operand | target | inStatement | inLoop => exact h
  | default => exact Frame.Fits.context h _
  | opening =>
    refine Context.fits_method fun i hi => ?_
    cases hi
    exact h.2

/-- A task fits in all the states that its step passes. -/
lemma inside (h : t.Fits strict s₀) (hgrows : (t.inside s₀).Grows s) : t.Fits strict s := by
  refine mono hgrows ?_
  unfold Task.inside
  split
  · exact h
  · exact h

end Task.Fits

/-- The turns of a loop run for the same receiver. -/
lemma StmtForm.Turns.fits {floor : Nat} {form : StmtForm} {around : Context} {body : Stmt}
    (h : form.Turns floor c around body) (hc : c.Fits s) : around.Fits s := by
  cases h <;> exact hc

/-- A method that can be called has a receiver that fits. -/
lemma Callable.fitsReceiver {V : Value → Prop} {m : Method} (hs : s.Tidy strict) (hc : c.Fits s)
    (h : Callable V c s owner m receiver) : FitsReceiver owner receiver s := by
  cases h with
  | taken hid => exact hs.function _ _ hid
  | accessor hsees => exact hsees.fits_member hc

/-- Changes keep a state tidy. -/
lemma State.Tidy.change {V : Value → State → Prop} {t : Task} (hs : s.Tidy strict) (ht : t.Fits strict s)
    (hgrows : (t.inside s₀).Grows s) (h : Change (State.KeepsFields strict) V t s₀ s s') :
    s.KeepsFields strict s' := by
  have hgrows' : s.Grows s' := h.grows fun _ _ h => h.grows
  have hmeets := h.meets hs.meets
  have hmodified : ∀ i key v i', ((s.heap.setField i key v).instance? i').isSome →
      (s.heap.instance? i').isSome := by
    intro i key v i' hi
    simp only [Heap.instance?, Heap.setField, Array.getElem?_modify] at hi
    split at hi
    · rwa [Option.isSome_map] at hi
    · exact hi
  cases h with
  | closure hmakes =>
    exact .of_tidy hgrows' (hs.addFunction trivial (ht.around hmakes.context?_eq)) fun _ hi => hi
  | taken hhome hsees =>
    have hmember : (Member.method _).Meets (·.LeavesFields strict) := hsees.meets hs.meets
    exact .of_tidy hgrows' (hs.addFunction hmember (hsees.fits_member (ht.home hhome))) fun _ hi => hi
  | @fieldSetUp c id i args cls f v _ _ hcls hf =>
    refine .of_tidy hgrows' (hs.setField v fun inst hinst => ?_) (hmodified i f.key v)
    obtain ⟨id', hid', habove⟩ := ht.2
    have heq : id' = inst.ofClass := by simpa [Heap.classOf?, hinst] using hid'.symm
    have hstart : (Task.inside (.setUp c id i args) s₀).registry.get? id = some cls := by
      rwa [Task.registry_inside]
    obtain ⟨cls', hcls', hrevised⟩ := hgrows.cls hstart
    rw [← heq]
    exact ⟨id, cls', habove, hcls', f, hrevised.instanceFields ▸ hf, rfl⟩
  | @fieldWritten t c target name owner key i v _ _ hhome hsees hreceiver =>
    refine .of_tidy hgrows' (hs.setField v fun inst hinst => ?_) (hmodified i key v)
    exact hsees.declares (ht.home hhome) hreceiver hinst
  | fieldOfHost hasks => exact absurd ⟨_, _, _, hasks⟩ ht.1.1
  | reserved | labelled | declared | parameter | assigned | array | object | element | property
  | registered | staticSetUp | staticWritten | printed | cancelled | turned =>
    exact .of_tidy hgrows' (hs.of_heap hgrows' hmeets rfl rfl) fun _ hi => hi

/-- The tasks to which a step leads fit. -/
lemma Lead.fits {V : Value → State → Prop} {t t' : Task} (hs₀ : s₀.Tidy strict) (hs : s.Tidy strict)
    (ht : t.Fits strict s) (hgrows : (t.inside s₀).Grows s)
    (h : Lead (State.KeepsFields strict) V t s₀ s t' s') : s'.Tidy strict ∧ t'.Fits strict s' := by
  have hhost := h.meets hs₀.meets hs.meets
  cases h with
  | evaluate he => exact ⟨hs, ht.evaluates he⟩
  | initializer => exact ⟨hs, Context.fits_method nofun⟩
  | assign he => exact ⟨hs, ht.around he.context?_eq⟩
  | branch | block | listed => exact ⟨hs, ht⟩
  | turn _ hturns =>
    refine ⟨hs, ?_⟩
    have haround := hturns.fits ht
    unfold Stmt.turn
    split
    · exact haround
    · exact haround
  | called hhome hcalls =>
    refine ⟨hs, ?_⟩
    cases hcalls with
    | function hid => exact hs.function _ _ hid
    | hostFunction | hostMethod => exact ⟨hhost, ht.home hhome⟩
    | method hcallable => exact hcallable.fitsReceiver hs (ht.home hhome)
  | @constructed _ _ id _ _ _ hconstructs =>
    have hc := ht.around hconstructs.context?_eq
    exact ⟨hs.withInstance id, hc.mono (.withInstance s id), id, s.classOf?_nextInstance id, .refl _ _⟩
  | body => exact ⟨hs, Frame.Fits.context ht _⟩
  | @parent c id i args cls p _ _ _ hcls hp =>
    obtain ⟨id', hid', habove⟩ := ht.2
    have hstart : (Task.inside (.setUp c id i args) s₀).registry.get? id = some cls := by
      rwa [Task.registry_inside]
    obtain ⟨cls', hcls', hrevised⟩ := hgrows.cls hstart
    exact ⟨hs, ht.1, id', hid', habove.parent hcls' (hrevised.parent.trans hp)⟩
  | hostConstructor => exact ⟨hs, hhost, ht.1⟩
  | @constructor c id i args cls closure _ scope rest _ _ =>
    have hmethod : (Context.method ⟨s₀.scopes.size⟩ closure id (some (.instanceRef i))).Fits s := by
      refine Context.fits_method fun i' hi => ?_
      cases hi
      exact ht.2
    exact ⟨hs, hmethod⟩
  | callBack | memberForHost => exact ⟨hs, ht.2⟩

namespace Regime

/-- Fields are only added as they are declared. -/
def declaring (strict : Prop) : Regime where
  Good := State.Tidy strict
  Kept := State.KeepsFields strict
  Near := fun s s' => s.Grows s' ∧ s'.Tidy strict
  Knows := fun _ _ => True
  Does := fun _ s t => t.Fits strict s
  Stalls := fun _ => True
  refl := .refl
  trans := .trans
  good := State.KeepsFields.tidy
  near := fun h => ⟨h.grows, h.tidy⟩
  near_trans := fun h h' => ⟨h.grows.trans h'.1, h'.2⟩
  grows := And.left
  opened := fun {s} hs =>
    .of_tidy (.opened s) (hs.of_heap (.opened s) ⟨hs.meets.function, hs.meets.cls⟩ rfl rfl)
      fun _ hi => hi
  entered := State.Tidy.entered
  left := fun h => by
    refine ⟨.left h.grows, h.tidy.left, fun hstrict i hi => ?_⟩
    exact (h.equipped hstrict i hi).imp_right fun hi' => hi'.of_eq rfl rfl
  near_left := fun h => ⟨.left h.1, h.2.left⟩
  knows := fun _ _ => trivial
  registered := fun _ _ => trivial
  stored := fun _ _ _ _ => trivial
  given := fun _ _ _ _ _ => trivial
  brought := fun _ _ _ => trivial
  operated := fun _ _ => trivial
  handled := fun hs hnot hnear =>
    ⟨hnear.1, hnear.2, fun hstrict => absurd (hs.does.1.2 hstrict) hnot⟩
  change := fun hs h => hs.kept.tidy.change (hs.does.inside hs.kept.grows) hs.kept.grows h
  lead := fun hs h => h.fits hs.start hs.kept.tidy (hs.does.inside hs.kept.grows) hs.kept.grows
  constructed := fun _ h hset => h.constructed hset
  abandoned := fun _ h => ⟨(State.Grows.withInstance _ _).trans h.1, h.2⟩
  exhausted := fun _ _ => trivial
  endless := fun _ _ => trivial
  stalls_left := id
  halting := .inl fun _ _ => trivial

end Regime

/-! ## Sessions -/

/-- Every state that is left is tidy, with a result or without. -/
lemma Regime.tidy_after {α : Type} {Q : α → State → Prop} {m : Exec α}
    (h : (Regime.declaring strict).Left Q s (m.run s)) : (m.after s).Tidy strict :=
  ((Regime.declaring strict).near_after h).2

/-- No function of the host sets fields of instances. -/
def Terms.scripted : Terms where
  host := fun f => ¬f.SetsFields
  knows := fun _ _ => True

lemma Regime.serves_scripted : (Regime.declaring strict).Serves .scripted where
  knows := fun _ => trivial
  evaluate := fun _ => nofun
  sequence := fun _ => nofun
  call := fun _ _ _ => nofun
  setUp := fun {_ s id _} hs _ _ =>
    ⟨hs.withInstance id, nofun, id, s.classOf?_nextInstance id, .refl _ _⟩

namespace State.Tidy

/-- What a host does keeps a state tidy, and what there was persists. -/
lemma upheld (s₀ : State) :
    Interpreter.Upheld .scripted fun s => s.Tidy False ∧ s₀.Persists s where
  registered := fun _ => trivial
  declared := fun {s name kind v} hs _ => by
    have hgrows := Grows.withScope s Interpreter.root.scope
      ((s.scopeAt Interpreter.root.scope).declare name kind v)
    exact ⟨hs.1.of_heap hgrows ⟨hs.1.meets.function, hs.1.meets.cls⟩ rfl rfl,
      hs.2.trans hgrows.persists⟩
  function := fun {s f} hs hf =>
    ⟨hs.1.addFunction ⟨hf, False.elim⟩ trivial, hs.2.trans (Grows.addFunction s (.host f)).persists⟩
  cls := fun {s h cls} hs hh _ _ hcls => by
    have hgrows := Grows.register s cls
    have hmeets : h.Meets (·.LeavesFields False) := hh.imp fun f hf => ⟨hf, False.elim⟩
    exact ⟨hs.1.of_heap hgrows (hs.1.meets.register (hmeets.toClass hcls)) rfl rfl,
      hs.2.trans hgrows.persists⟩
  cancel := fun {s} hs => by
    have hgrows := Grows.cancel s
    exact ⟨hs.1.of_heap hgrows ⟨hs.1.meets.function, hs.1.meets.cls⟩ rfl rfl,
      hs.2.trans hgrows.persists⟩
  request := fun {s β m} bound hs hm => by
    have hserved := hm.served Regime.serves_scripted hs.1 bound
    exact ⟨Regime.tidy_after hserved.left,
      hs.2.trans ((Regime.declaring False).persists_of_left hserved.left)⟩

/-- The states that a host can bring about are tidy. -/
lemma of_reached (hs : Interpreter.Reached .scripted s) : s.Tidy False := by
  obtain ⟨config, services, s₀, -, hstart, hlater⟩ := hs
  have hinitial : (State.opened { config, services }).Tidy False := by
    refine ⟨fun i inst key hinst => ?_, .initial config services, fun id f hf => ?_⟩
    · simp [State.opened, Heap.instance?] at hinst
    · simp [State.opened, Heap.function?] at hf
  have hbuiltins : ∀ f ∈ Interpreter.builtins, ¬f.SetsFields :=
    fun _ => Interpreter.not_setsFields_of_mem_builtins
  have hupheld := upheld (State.opened { config, services })
  exact (hupheld.later (hupheld.prepares.start hbuiltins ⟨hinitial, .refl _⟩ hstart) hlater).1

end State.Tidy

/-! ## Runs -/

/-- An instance that is complete stays complete. -/
lemma State.Complete.persists {i : InstanceId} (h : s.Complete i) (hs : s.Persists s')
    (ht : s'.Tidy strict) :
    s'.Complete i := by
  have hequipped := h.equipped.mono hs
  exact ht.declared.complete (hequipped.of_eq rfl rfl)

namespace Part

variable {α : Type} {n k : Nat} {m : Evaluator → Exec α} {trail : List Task} {t : Task}

/-- The construction that made the instance is in progress at a part of a run. -/
def Constructing (n : Nat) (m : Evaluator → Exec α) (s : State) (tasks : List Task)
    (i : InstanceId) : Prop :=
  ∃ (inner outer : List Task) (c : Context) (id : ClassId) (args : List Value) (k : Nat) (s₁ : State),
    tasks = inner ++ .setUp c id i args :: outer ∧ i = s₁.nextInstance ∧
    Part n m s outer k (.setUp c id i args) (s₁.withInstance id)

lemma Constructing.cons {tasks : List Task} {i : InstanceId} (h : Constructing n m s tasks i)
    (t : Task) : Constructing n m s (t :: tasks) i := by
  obtain ⟨inner, outer, c, id, args, k, s₁, rfl, hi, hpart⟩ := h
  exact ⟨t :: inner, outer, c, id, args, k, s₁, rfl, hi, hpart⟩

/-- What is known of the fields of instances at a part of a run. -/
structure KeepsFields (n : Nat) (m : Evaluator → Exec α) (s : State) (trail : List Task) (k : Nat)
    (t : Task) (s' : State) : Prop where
  /-- There are no other fields than the declared ones, before and after the part. -/
  declared : s'.FieldsDeclared ∧ (((Evaluator.within k).perform t).after s').FieldsDeclared
  /-- An instance is complete when its construction has succeeded. -/
  constructed : ∀ c id i args a s'', t = .setUp c id i args → s'.heap.classOf? i = some id →
    ((Evaluator.within k).perform t).run s' = .ok a s'' → s''.Complete i
  /-- Where the host hands on all faults, every instance is complete, unless its construction is in
  progress or had failed before. -/
  whole : s.Meets (·.Relays) → ∀ i, (s'.heap.instance? i).isSome →
    s'.Complete i ∨ Constructing n m s (t :: trail) i ∨ (s.heap.instance? i).isSome ∧ ¬s.Complete i
  /-- An instance that is complete stays so. -/
  lasting : ∀ i, (s.Complete i → s'.Complete i) ∧
    (s'.Complete i → (((Evaluator.within k).perform t).after s').Complete i) ∧
    ((((Evaluator.within k).perform t).after s').Complete i →
      ((m (Evaluator.within n)).after s).Complete i)
  /-- A field that code finds is declared, and a complete instance has it. -/
  slot : ∀ c s'' target name owner key i, t.home = some c → s'.Persists s'' →
    Sees (fun _ => True) c s'' target name (.field owner key) →
    target.receiver = some (.instanceRef i) →
    (∃ inst, s''.heap.instance? i = some inst ∧ s''.registry.Declares inst.ofClass key) ∧
      (s''.Complete i → (s''.heap.field? i key).isSome)

end Part

end ScriptLang
