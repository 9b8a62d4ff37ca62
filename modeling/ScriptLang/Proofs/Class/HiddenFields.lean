/-
The fields behind properties.

A property with automatic accessors has a hidden field, which its accessors read and write through `this`.
They look for it as code of the class that declares the property, under a private key with the name of this
class.  No class keeps a member under such a key, and none keeps anything under the other keys of the hidden
name, so whatever classes stand between the receiver and the property, the accessors come to the same slot
if they come to an end at all (`Registry.search_hidden`).  Code that looks for an identifier never finds it
(`Evaluator.Access.misses_hidden`).

A search looks at names, parents and keys.  Where only values of fields have changed, it finds the same as
before (`Registry.Revised.search`).
-/
import ScriptLang.Proofs.Class.Identifiers
import ScriptLang.Proofs.Class.Resolution

namespace ScriptLang

/-! ## Slots -/

/-- A place for the value of a field, of an instance or of a class itself. -/
inductive Slot where
  | ofInstance (i : InstanceId) (key : String)
  | ofClass (id : ClassId) (key : String)
  deriving DecidableEq

/-- The instance that has the slot is there, or the class that has the slot, with its field. -/
def Slot.Exists (s : State) : Slot → Prop
  | .ofInstance i _ => ∃ inst, s.heap.instance? i = some inst
  | .ofClass id key => ∃ cls, s.registry.get? id = some cls ∧ cls.staticFields.contains key = true

namespace State

variable {s : State} {slot : Slot} {v : Value}

/-- The value in a slot. -/
def slot? (s : State) : Slot → Option Value
  | .ofInstance i key => s.heap.field? i key
  | .ofClass id key => (s.registry.get? id).bind (·.staticFields.get? key)

/-- The state with another value in a slot. -/
def put (s : State) (slot : Slot) (v : Value) : State :=
  match slot with
  | .ofInstance i key => s.withHeap (s.heap.setField i key v)
  | .ofClass id key => s.withRegistry (s.registry.modify id (·.setField key v))

/-- All the other slots keep their values. -/
lemma slot?_put (h : slot.Exists s) : (s.put slot v).slot? = Function.update s.slot? slot (some v) := by
  funext other
  rw [Function.update_apply]
  cases slot with
  | ofInstance i key =>
    cases other with
    | ofClass => rfl
    | ofInstance i' key' =>
      obtain ⟨inst, hinst⟩ := h
      simp only [Heap.instance?] at hinst
      simp only [slot?, put, withHeap, Heap.field?, Heap.instance?, Heap.setField, Array.getElem?_modify,
        Slot.ofInstance.injEq]
      by_cases hi : i' = i
      · subst hi
        simp only [hinst, if_true, Option.map_some, Option.bind_some, Table.get?_insert, true_and]
      · have hindex : i.index ≠ i'.index := fun heq => hi (congrArg InstanceId.mk heq.symm)
        simp only [hi, hindex, if_false, false_and]
  | ofClass id key =>
    cases other with
    | ofInstance => rfl
    | ofClass id' key' =>
      obtain ⟨cls, hcls, -⟩ := h
      simp only [slot?, put, withRegistry, Registry.get?_modify, Slot.ofClass.injEq]
      by_cases hid : id' = id
      · subst hid
        simp only [hcls, if_true, Option.map_some, Option.bind_some, Class.setField, Table.get?_insert,
          true_and]
      · simp only [hid, Ne.symm hid, if_false, false_and]

end State

/-- The slot of a field that was found in the class `owner`. -/
def Target.slot (target : Target) (owner : ClassId) (key : String) : Slot :=
  match target.receiver, target.side with
  | some (.instanceRef i), .ofInstance => .ofInstance i key
  | _, _ => .ofClass owner key

lemma run_readField (target : Target) (owner : ClassId) (key : String) (s : State) :
    (readField target owner key).run s = .ok ((s.slot? (target.slot owner key)).getD .null) s := by
  obtain ⟨start, side, _ | v⟩ := target
  · rfl
  · cases v <;> cases side <;> rfl

lemma run_writeField (target : Target) (owner : ClassId) (key : String) (v : Value) (s : State) :
    (writeField target owner key v).run s = .ok () (s.put (target.slot owner key) v) := by
  obtain ⟨start, side, _ | w⟩ := target
  · rfl
  · cases w <;> cases side <;> rfl

/-! ## Looking for the hidden field -/

namespace Registry

variable {r r' : Registry} {caller : Option (ClassId × String)} {side : Side} {name p a : String}
  {id k start : ClassId} {cls : Class} {found : Found}

/-- Of all that a class holds, code of a class named `a` finds only a field under the hidden name. -/
lemma eq_field_of_inClass?_hidden (hcls : cls.Identified) (hp : Grammar.IsIdentifier p)
    (ha : ':' ∉ a.toList)
    (h : Found.inClass? id cls side (r.visibleKeys (some (k, a)) (Class.hiddenName p) id) = some found) :
    found = .field id (Class.key .isPrivate a (Class.hiddenName p)) := by
  obtain ⟨pre, key, post, hkeys, -, howner, hstands⟩ := Found.exists_of_inClass? h
  have hkey : key ∈ r.visibleKeys (some (k, a)) (Class.hiddenName p) id := by simp [hkeys]
  rcases eq_of_mem_visibleKeys hkey with ⟨_, _, heq, rfl⟩ | hpublic | rfl
  · cases heq
    cases found with
    | field owner key' =>
      obtain rfl : owner = id := howner
      rw [hstands.1]
    | member owner m => cases (hcls.get?_hidden hp ha).symm.trans hstands
  · have hnot : ¬cls.Holds side (Class.key .isPublic "" (Class.hiddenName p)) :=
      hcls.not_holds_hidden hp nofun
    exact absurd (hpublic ▸ hstands.holds) hnot
  · exact absurd hstands.holds (hcls.not_holds_hidden hp nofun)

/-- Where code finds something in a class that has a hidden field, code of a class with the name in the key of
this field finds the field, unless its search does not end.  It may be that a class further down has the field
as well, but only if it goes by the same name, and then the key is the same. -/
lemma search_hidden (hr : ∀ id cls, r.get? id = some cls → cls.Identified) (hp : Grammar.IsIdentifier p)
    (ha : ':' ∉ a.toList) (hcls : r.get? found.owner = some cls)
    (hfield : cls.hasField side (Class.key .isPrivate a (Class.hiddenName p)) = true)
    (h : r.search caller side name start = .found found) :
    (∃ owner, r.search (some (k, a)) side (Class.hiddenName p) start =
      .found (.field owner (Class.key .isPrivate a (Class.hiddenName p)))) ∨
    r.search (some (k, a)) side (Class.hiddenName p) start = .endless := by
  unfold search at h ⊢
  generalize r.size + 1 = bound at h
  -- Both searches go up together, and the second one ends no later than the first.
  induction bound generalizing start with
  | zero => cases h
  | succ bound ih =>
    cases hstart : r.get? start with
    | none =>
      simp only [searchWithin, hstart] at h
      cases h
    | some c =>
      simp only [searchWithin, hstart] at h ⊢
      cases hsettles : r.settles (some (k, a)) start with
      | false => exact .inr rfl
      | true =>
      simp only [if_true]
      cases hin : Found.inClass? start c side (r.visibleKeys (some (k, a)) (Class.hiddenName p) start) with
      | some found' =>
        obtain rfl := eq_field_of_inClass?_hidden (hr start c hstart) hp ha hin
        exact .inl ⟨start, rfl⟩
      | none =>
        have hnot : ¬c.Holds side (Class.key .isPrivate a (Class.hiddenName p)) :=
          Found.inClass?_eq_none_iff.mp hin _ (by simp [visibleKeys])
        split at h
        case isFalse => cases h
        case isTrue =>
        cases hown : Found.inClass? start c side (r.visibleKeys caller name start) with
        | some found' =>
          -- The first search ends here, so this is the class that has the field.
          simp only [hown, Search.found.injEq] at h
          subst h
          obtain ⟨-, -, -, -, -, howner, -⟩ := Found.exists_of_inClass? hown
          rw [howner] at hcls
          cases hstart.symm.trans hcls
          exact absurd (.inr hfield) hnot
        | none =>
          simp only [hown] at h
          cases hparent : c.parent with
          | none => simp [hparent] at h
          | some parent =>
            simp only [hparent] at h ⊢
            exact ih h

/-- A class itself finds its own hidden field. -/
lemma search_hidden_self (hr : ∀ id cls, r.get? id = some cls → cls.Identified)
    (hp : Grammar.IsIdentifier p) (hcls : r.get? id = some cls)
    (hfield : cls.hasField side (Class.key .isPrivate cls.name (Class.hiddenName p)) = true) :
    r.search (some (id, cls.name)) side (Class.hiddenName p) id =
      .found (.field id (Class.key .isPrivate cls.name (Class.hiddenName p))) := by
  have hself : r.isRelated id id = some true := by simp [isRelated]
  obtain ⟨found, hsearch, howner, hstands⟩ := search_namesake (by rw [hself]; rfl) hcls (.inr hfield)
  cases found with
  | field owner key =>
    obtain rfl : owner = id := howner
    rw [hsearch, hstands.1]
  | member owner m =>
    have hid := hr id cls hcls
    cases (hid.get?_hidden hp hid.name.colon_not_mem).symm.trans hstands

/-! ### Searches in revised classes -/

/-- The same classes are there, with other values of their own fields. -/
structure Revised (r r' : Registry) : Prop where
  size : r'.size = r.size
  cls : ∀ {id cls}, r.get? id = some cls → ∃ cls', r'.get? id = some cls' ∧ cls.Revised cls'

namespace Revised

lemma refl (r : Registry) : r.Revised r := ⟨rfl, fun h => ⟨_, h, .refl _⟩⟩

lemma get? (h : r.Revised r') (id : ClassId) : r.get? id = none ∧ r'.get? id = none ∨
    ∃ cls cls', r.get? id = some cls ∧ r'.get? id = some cls' ∧ cls.Revised cls' := by
  cases hcls : r.get? id with
  | some cls =>
    obtain ⟨cls', hcls', hrevised⟩ := h.cls hcls
    exact .inr ⟨cls, cls', rfl, hcls', hrevised⟩
  | none =>
    refine .inl ⟨rfl, ?_⟩
    cases hcls' : r'.get? id with
    | none => rfl
    | some cls' =>
      have hlt := lt_size_of_get? hcls'
      have hsome := isSome_get?_of_lt (h.size ▸ hlt)
      rw [hcls] at hsome
      cases hsome

lemma isRelated (h : r.Revised r') (a b : ClassId) : r'.isRelated a b = r.isRelated a b := by
  have hparent : ∀ id, r'.parent? id = r.parent? id := by
    intro id
    rcases h.get? id with ⟨hnone, hnone'⟩ | ⟨cls, cls', hcls, hcls', hrevised⟩
    · simp [parent?, hnone, hnone']
    · simp [parent?, hcls, hcls', hrevised.parent]
  have hwithin : ∀ bound id, r'.ancestorsWithin bound id = r.ancestorsWithin bound id := by
    intro bound
    induction bound with
    | zero => exact fun _ => rfl
    | succ bound ih =>
      intro id
      simp only [ancestorsWithin, hparent, ih]
  have hancestors : ∀ id, r'.ancestors id = r.ancestors id := fun id => by
    rw [ancestors, ancestors, h.size, hwithin]
  have hends : ∀ id, r'.ends id = r.ends id := fun id => by rw [ends, ends, hancestors, h.size]
  simp only [Registry.isRelated, isExtendedFrom, hancestors, hends]

/-- A search looks at names, parents and keys, and these stay as they are. -/
lemma search (h : r.Revised r') : r'.search caller side name start = r.search caller side name start := by
  have hkeys : ∀ id, r'.visibleKeys caller name id = r.visibleKeys caller name id := by
    intro id
    simp only [visibleKeys, h.isRelated]
  have hsettles : ∀ id, r'.settles caller id = r.settles caller id := by
    intro id
    simp only [settles, h.isRelated]
  have hwithin : ∀ bound id, r'.searchWithin caller side name bound id =
      r.searchWithin caller side name bound id := by
    intro bound
    induction bound with
    | zero => exact fun _ => rfl
    | succ bound ih =>
      intro id
      rcases h.get? id with ⟨hnone, hnone'⟩ | ⟨cls, cls', hcls, hcls', hrevised⟩
      · simp only [searchWithin, hnone, hnone']
      · have hin : Found.inClass? id cls' side (r.visibleKeys caller name id) =
            Found.inClass? id cls side (r.visibleKeys caller name id) := by
          simp only [Found.inClass?, hrevised.members, hrevised.hasField]
        simp only [searchWithin, hcls, hcls', hsettles, hkeys, hin, hrevised.parent, ih]
  rw [Registry.search, Registry.search, h.size, hwithin]

end Revised

end Registry

lemma State.grows_put {s : State} {slot : Slot} (h : slot.Exists s) (v : Value) : s.Grows (s.put slot v) := by
  cases slot with
  | ofInstance i key => exact .setField s i key v
  | ofClass id key =>
    obtain ⟨cls, hcls, hkey⟩ := h
    exact .setStaticField v hcls hkey

lemma State.revised_put {s : State} {slot : Slot} (h : slot.Exists s) (v : Value) :
    s.registry.Revised (s.put slot v).registry := by
  refine ⟨?_, (s.grows_put h v).cls⟩
  cases slot with
  | ofInstance => rfl
  | ofClass => simp [put, withRegistry, Registry.modify, Registry.size]

/-! ## Looking from a context -/

/-- What a context finds is found again where classes are only revised. -/
lemma resolve_of_revised {s t : State} {c : Context} {target : Target} {name : String}
    {found : Registry.Found} (hrevised : s.registry.Revised t.registry)
    (h : (resolve c target name).run s = .ok (some found) s) :
    (resolve c target name).run t = .ok (some found) t := by
  have hresolved := resolved_run c target name s
  rw [h] at hresolved
  cases hresolved with
  | @found caller _ hcaller hsearch =>
    have hcaller' : c.Caller t caller := by
      cases hcaller with
      | outside howner => exact .outside howner
      | inside howner hcls =>
        obtain ⟨cls', hcls', hsame⟩ := hrevised.cls hcls
        rw [← hsame.name]
        exact .inside howner hcls'
    rw [← hrevised.search] at hsearch
    rw [hcaller'.run_resolve]
    simp [resolveFor, hsearch]

/-- Code that looks for an identifier never finds a hidden field. -/
lemma resolve_ne_hidden {s s' : State} (hs : s.Identified) {c : Context} {target : Target}
    {name p a : String} {owner : ClassId} (hname : Grammar.IsIdentifier name)
    (hp : Grammar.IsIdentifier p) (ha : ':' ∉ a.toList) :
    (resolve c target name).run s ≠
      .ok (some (.field owner (Class.key .isPrivate a (Class.hiddenName p)))) s' := by
  intro h
  have hresolved := resolved_run c target name s
  rw [h] at hresolved
  cases hresolved with
  | @found caller _ hcaller hsearch =>
    obtain ⟨-, -, -, -, -, hkey⟩ := Registry.field_of_search hsearch
    have hmember : Class.IsMemberName name := .inl hname
    have hcallers := hcaller.colon_not_mem fun id cls hcls => (hs.cls id cls hcls).name
    have hvisible : ∃ v b, ':' ∉ b.toList ∧
        Class.key .isPrivate a (Class.hiddenName p) = Class.key v b name := by
      rcases Registry.eq_of_mem_visibleKeys hkey with ⟨callerId, callerName, rfl, heq⟩ | heq | heq
      · exact ⟨.isPrivate, callerName, hcallers _ rfl, heq⟩
      · exact ⟨.isPublic, "", by decide, heq⟩
      · exact ⟨.isProtected, "", by decide, heq⟩
    obtain ⟨v, b, hb, heq⟩ := hvisible
    have heq' := (Class.key_inj ha hb (Class.isName_hiddenName hp) hmember.isName heq).2.1
    exact hmember.ne_hiddenName p heq'.symm

/-- What was found is the field in the slot. -/
def Registry.Found.Reaches (target : Target) (slot : Slot) : Registry.Found → Prop
  | .field owner key => target.slot owner key = slot
  | .member _ _ => False

def Slot.key : Slot → String
  | .ofInstance _ key => key
  | .ofClass _ key => key

lemma Target.key_slot (target : Target) (owner : ClassId) (key : String) :
    (target.slot owner key).key = key := by
  unfold Target.slot
  split <;> rfl

/-- Code that names an identifier, of whatever value, never comes to a hidden field. -/
lemma Evaluator.Access.misses_hidden {s : State} (hs : s.Identified) {self : Evaluator} {c : Context}
    {target : Target} {name p a : String} {slot : Slot} (hname : Grammar.IsIdentifier name)
    (hp : Grammar.IsIdentifier p) (ha : ':' ∉ a.toList)
    (hslot : slot.key = Class.key .isPrivate a (Class.hiddenName p)) {α : Type}
    {act : Registry.Found → Exec α} {x : Exec α} (hx : self.Access c target name s act x) :
    (∃ e, x.run s = .error e s) ∨ ∃ found, ¬found.Reaches target slot ∧ x.run s = (act found).run s := by
  have hresolved := resolved_run c target name s
  rw [hx.run_eq]
  generalize hrun : (resolve c target name).run s = outcome at hresolved
  cases hresolved with
  | failed | endless => exact .inl ⟨_, run_bind_error hrun⟩
  | absent => exact .inl ⟨_, run_bind_ok hrun⟩
  | @found caller found hcaller hsearch =>
    refine .inr ⟨found, fun hreaches => ?_, run_bind_ok hrun⟩
    cases found with
    | member => exact hreaches
    | field owner key =>
      rw [← hreaches, target.key_slot] at hslot
      rw [hslot] at hrun
      exact resolve_ne_hidden hs hname hp ha hrun

end ScriptLang
