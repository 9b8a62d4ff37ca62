/-
Private members.

A private member stands in its class under a key that carries the name of the class, and code looks for
private members under the name of the class that it runs in.  The names of classes are identifiers, in
which no colon stands, so the two names can be read off the key, and a private member is found only by
code of a class with the name of the class that declares it (`private_members_open_to_namesakes`).

That is not quite the class itself.  Two blocks may declare classes of the same name, and then the code
of one of them reads the private fields of the other (`namesake_reads_private_field`).
-/
import ScriptLang.Proofs.Eval.Landing
import ScriptLang.Proofs.Eval.ValueRules
import ScriptLang.Proofs.Rule.Scan
import ScriptLang.Token.Grammar

namespace ScriptLang

/-! ## Identifiers -/

/-- The text is an identifier as a whole. -/
def Grammar.IsIdentifier (text : String) : Prop :=
  identifier.scan text.toList = (true, text.length)

instance (text : String) : Decidable (Grammar.IsIdentifier text) :=
  inferInstanceAs (Decidable (_ = _))

lemma Grammar.IsIdentifier.colon_not_mem {text : String} (h : IsIdentifier text) :
    ':' ∉ text.toList := by
  have hscan : ':' ∉ text.toList.take (identifier.scan text.toList).2 :=
    Rule.not_mem_take_scan (by decide) _
  rwa [h, ← String.length_toList, List.take_length] at hscan

/-- All classes are named by identifiers. -/
def Registry.Named (r : Registry) : Prop :=
  ∀ id cls, r.get? id = some cls → Grammar.IsIdentifier cls.name

lemma Registry.Named.insert {r : Registry} {cls : Class} (hr : r.Named)
    (hcls : Grammar.IsIdentifier cls.name) : (r.insert cls).2.Named := by
  intro id cls' h
  rw [get?_insert] at h
  split at h
  · cases h
    exact hcls
  · exact hr id cls' h

/-! ## Keys -/

namespace Class

variable {a b name other : String}

lemma toList_key_private (a name : String) :
    (key .isPrivate a name).toList = a.toList ++ ':' :: ':' :: name.toList := by
  simp [key]

/-- The name of the class can be read off a private key. -/
lemma name_eq_of_key_private (ha : ':' ∉ a.toList) (hb : ':' ∉ b.toList)
    (h : key .isPrivate a name = key .isPrivate b other) : a = b := by
  have hlists := congrArg String.toList h
  rw [toList_key_private, toList_key_private] at hlists
  have hsplit : ∀ u v : List Char, ':' ∉ u → (u ++ ':' :: v).takeWhile (· ≠ ':') = u := by
    intro u v hu
    rw [List.takeWhile_append_of_pos fun ch hch => ?_]
    · simp
    · simpa using fun heq : ch = ':' => hu (heq ▸ hch)
  have hprefix := congrArg (List.takeWhile (· ≠ ':')) hlists
  rw [hsplit _ _ ha, hsplit _ _ hb] at hprefix
  exact String.toList_inj.mp hprefix

/-- Public and protected keys of an identifier are not private ones. -/
lemma key_private_ne (hname : ':' ∉ name.toList) (a other : String) :
    key .isPrivate a other ≠ name ∧ key .isPrivate a other ≠ key .isProtected "" name := by
  have hcolon : ':' ∈ (key .isPrivate a other).toList := by simp [toList_key_private]
  refine ⟨fun h => hname (h ▸ hcolon), fun h => ?_⟩
  rw [h] at hcolon
  simp [key, hname] at hcolon

end Class

namespace Registry

variable {r : Registry} {caller : Option (ClassId × String)} {a name other key : String} {id : ClassId}

/-- The keys under which code sees a name. -/
lemma eq_of_mem_visibleKeys (h : key ∈ r.visibleKeys caller name id) :
    (∃ callerId callerName, caller = some (callerId, callerName) ∧
      key = Class.key .isPrivate callerName name) ∨
      key = name ∨ key = Class.key .isProtected "" name := by
  cases caller with
  | none => exact .inr (.inl (List.mem_singleton.mp h))
  | some p =>
    simp only [visibleKeys, List.mem_append, List.mem_cons, List.not_mem_nil, or_false] at h
    rcases h with (h | h) | h
    · exact .inl ⟨_, _, rfl, h⟩
    · exact .inr (.inl h)
    · split at h
      · exact .inr (.inr (List.mem_singleton.mp h))
      · cases h

lemma exists_eq_key_of_visible (h : key ∈ r.visibleKeys caller name id) :
    ∃ visibility className, key = Class.key visibility className name := by
  rcases eq_of_mem_visibleKeys h with ⟨-, callerName, -, h⟩ | h | h
  · exact ⟨.isPrivate, callerName, h⟩
  · exact ⟨.isPublic, "", h⟩
  · exact ⟨.isProtected, "", h⟩

/-- Code sees a private key only if it runs in a class with the name in the key. -/
lemma caller_of_key_private (hname : ':' ∉ name.toList) (ha : ':' ∉ a.toList)
    (hcaller : ∀ p ∈ caller, ':' ∉ p.2.toList)
    (h : Class.key .isPrivate a other ∈ r.visibleKeys caller name id) :
    ∃ callerId, caller = some (callerId, a) := by
  obtain ⟨hpublic, hprotected⟩ := Class.key_private_ne hname a other
  rcases eq_of_mem_visibleKeys h with ⟨callerId, callerName, rfl, hkey⟩ | hkey | hkey
  · have heq : a = callerName := Class.name_eq_of_key_private ha (hcaller _ rfl) hkey
    exact ⟨callerId, by rw [heq]⟩
  · exact absurd hkey hpublic
  · exact absurd hkey hprotected

end Registry

/-! ## What a class declares -/

/-- The names under which a member of a declaration is private.  The field behind a property is always
private. -/
def MemberDecl.privateNames (m : MemberDecl) : List String :=
  let own (name : String) := if m.visibility = .isPrivate then [name] else []
  match m.form with
  | .field _ | .method _ => own m.name
  | .constructor _ => []
  | .property getter setter _ =>
    own m.name ++ if Draft.isAuto getter || Draft.isAuto setter then [Class.hiddenName m.name] else []
  | .indexer _ _ => own indexerName

/-- The class was made from the declaration, and nothing but the values of its own fields has changed
since. -/
def ClassDecl.Describes (decl : ClassDecl) (cls : Class) : Prop :=
  ∃ parent c draft, Draft.ofDecl decl parent c = .ok draft ∧ (draft.finish c).Revised cls

/-- The class was declared with a private member or field under the key. -/
def Class.DeclaresPrivate (cls : Class) (side : Side) (key : String) : Prop :=
  ∃ decl : ClassDecl, decl.Describes cls ∧ ∃ m ∈ decl.members, Side.ofStatic m.isStatic = side ∧
    ∃ name ∈ m.privateNames, key = Class.key .isPrivate decl.name name

/-- The class has a member or a field under the key. -/
def Class.Holds (cls : Class) (side : Side) (key : String) : Prop :=
  (cls.members side).contains key = true ∨ cls.hasField side key = true

namespace Class

variable {cls cls' : Class} {side other : Side} {key key' : String} {member : Member}

lemma holds_addMember : (cls.addMember side key member).Holds side key := by
  cases side <;> exact .inl (by simp [addMember, members, Table.contains])

lemma Holds.addMember (h : cls.Holds side key) : (cls.addMember other key' member).Holds side key := by
  rcases h with h | h
  · refine .inl ?_
    cases other <;> cases side <;>
      simp only [Class.addMember, members, Table.contains, Table.get?_insert] at h ⊢ <;>
      first | exact h | (split <;> simp_all)
  · refine .inr ?_
    cases other <;> exact h

lemma Revised.holds (hrev : cls.Revised cls') (h : cls.Holds side key) : cls'.Holds side key := by
  rcases h with h | h
  · exact .inl (by rwa [hrev.members])
  · exact .inr (by rwa [hrev.hasField])

end Class

namespace Draft

variable {d d' draft : Draft} {m : MemberDecl} {decl : ClassDecl} {parent : Option ClassId} {c : Context}
  {side : Side} {key : String}

lemma holds_addField (d : Draft) (side : Side) (key : String) (initializer : Option Expr) :
    (d.addField side key initializer).partialClass.Holds side key := by
  cases side <;> exact .inr (by simp [addField, Class.setField, Class.hasField, Table.contains])

lemma Holds.addField {other : Side} {key' : String} {initializer : Option Expr}
    (h : d.partialClass.Holds side key) :
    (d.addField other key' initializer).partialClass.Holds side key := by
  rcases h with h | h
  · refine .inl ?_
    cases other <;> exact h
  · refine .inr ?_
    cases other <;> cases side <;>
      simp only [Draft.addField, Class.setField, Class.hasField, Table.contains, Table.get?_insert]
        at h ⊢
    · simp_all
    · exact h
    · exact h
    · split <;> simp_all

/-- Adding a member takes nothing away. -/
lemma Adds.holds (hadds : d.Adds m d') (h : d.partialClass.Holds side key) :
    d'.partialClass.Holds side key := by
  cases hadds with
  | field => exact Holds.addField h
  | constructor => exact h
  | autoProperty => exact (Holds.addField h).addMember
  | method | property | indexer => exact h.addMember

/-- What a member declares as private is there once it is added. -/
lemma Adds.holds_private (hadds : d.Adds m d') {name : String} (hname : name ∈ m.privateNames) :
    d'.partialClass.Holds (.ofStatic m.isStatic) (Class.key .isPrivate d.name name) := by
  have hown : ∀ own : String, (name ∈ if m.visibility = .isPrivate then [own] else []) →
      m.visibility = .isPrivate ∧ name = own := by
    intro own h
    split at h
    next hvisibility => exact ⟨hvisibility, List.mem_singleton.mp h⟩
    next => cases h
  cases hadds with
  | field hform =>
    simp only [MemberDecl.privateNames, hform] at hname
    obtain ⟨hvisibility, rfl⟩ := hown _ hname
    rw [hvisibility]
    exact holds_addField _ _ _ _
  | method hform =>
    simp only [MemberDecl.privateNames, hform] at hname
    obtain ⟨hvisibility, rfl⟩ := hown _ hname
    rw [hvisibility]
    exact Class.holds_addMember
  | constructor hform =>
    simp only [MemberDecl.privateNames, hform] at hname
    cases hname
  | property hform hauto =>
    simp only [MemberDecl.privateNames, hform, hauto] at hname
    obtain ⟨hvisibility, rfl⟩ := hown m.name (by simpa using hname)
    rw [hvisibility]
    exact Class.holds_addMember
  | autoProperty hform hauto =>
    simp only [MemberDecl.privateNames, hform, hauto, if_true, List.mem_append, List.mem_singleton]
      at hname
    rcases hname with hname | rfl
    · obtain ⟨hvisibility, rfl⟩ := hown _ hname
      rw [hvisibility]
      exact Class.holds_addMember
    · exact (holds_addField _ _ _ _).addMember
  | indexer hform =>
    simp only [MemberDecl.privateNames, hform] at hname
    obtain ⟨hvisibility, rfl⟩ := hown _ hname
    rw [hvisibility]
    exact Class.holds_addMember

/-- What the members of a declaration declare as private is there in the end. -/
lemma holds_of_ofDecl (h : ofDecl decl parent c = .ok draft) :
    draft.name = decl.name ∧ ∀ m ∈ decl.members, ∀ name ∈ m.privateNames,
      draft.partialClass.Holds (.ofStatic m.isStatic) (Class.key .isPrivate decl.name name) := by
  refine ofDecl_visits h (P := fun done d => d.name = decl.name ∧ ∀ m ∈ done, ∀ name ∈ m.privateNames,
    d.partialClass.Holds (.ofStatic m.isStatic) (Class.key .isPrivate decl.name name)) ⟨rfl, nofun⟩ ?_
  rintro done m - d d' ⟨hd, hdone⟩ hadds
  refine ⟨hadds.name_eq.trans hd, fun m' hm' name hname => ?_⟩
  rcases List.mem_append.mp hm' with hm' | hm'
  · exact hadds.holds (hdone m' hm' name hname)
  · cases List.mem_singleton.mp hm'
    exact hd ▸ hadds.holds_private hname

end Draft

lemma ClassDecl.Describes.name {decl : ClassDecl} {cls : Class} (h : decl.Describes cls) :
    cls.name = decl.name := by
  obtain ⟨parent, c, draft, hdraft, hrev⟩ := h
  exact hrev.name.trans (Draft.holds_of_ofDecl hdraft).1

namespace Class.DeclaresPrivate

variable {cls : Class} {side : Side} {key : String}

lemma exists_eq_key (h : cls.DeclaresPrivate side key) :
    ∃ name, key = Class.key .isPrivate cls.name name := by
  obtain ⟨decl, hdecl, m, -, -, name, -, rfl⟩ := h
  exact ⟨name, by rw [hdecl.name]⟩

lemma holds (h : cls.DeclaresPrivate side key) : cls.Holds side key := by
  obtain ⟨decl, ⟨parent, c, draft, hdraft, hrev⟩, m, hm, rfl, name, hname, rfl⟩ := h
  exact hrev.holds ((Draft.holds_of_ofDecl hdraft).2 m hm name hname)

end Class.DeclaresPrivate

/-! ## What code may use -/

namespace Registry.Found

/-- The class in which something was found. -/
def owner : Found → ClassId
  | .field owner _ => owner
  | .member owner _ => owner

/-- What was found stands in a class under a key. -/
def StandsIn (cls : Class) (side : Side) (key : String) : Found → Prop
  | .field _ key' => key' = key ∧ cls.hasField side key = true
  | .member _ m => (cls.members side).get? key = some m

/-- Code may use what was found under a name: if that was declared private, the code runs in a class
with the name of the class that declares it, and in this class itself if no other one has its name. -/
def OpenTo (c : Context) (r : Registry) (side : Side) (name : String) (found : Found) : Prop :=
  ∃ cls visibility className, r.get? found.owner = some cls ∧
    found.StandsIn cls side (Class.key visibility className name) ∧
    (cls.DeclaresPrivate side (Class.key visibility className name) →
      ∃ id caller, c.owner = some id ∧ r.get? id = some caller ∧ caller.name = cls.name ∧
        ((∀ other cls', r.get? other = some cls' → cls'.name = cls.name → other = found.owner) →
          id = found.owner))

end Registry.Found

namespace Registry

variable {r : Registry} {caller : Option (ClassId × String)} {side : Side} {name : String}
  {id start : ClassId} {cls : Class} {found : Found}

/-- What is found stands in its class under a key that the code sees. -/
lemma standsIn_of_search (h : r.search caller side name start = .found found) :
    ∃ cls key, r.get? found.owner = some cls ∧ found.StandsIn cls side key ∧
      key ∈ r.visibleKeys caller name found.owner := by
  obtain ⟨id, cls, -, hcls, hin⟩ := exists_of_search h
  obtain ⟨key, hkey, ⟨m, hm, rfl⟩ | ⟨-, hfield, rfl⟩⟩ := Found.inClass?_eq_some hin
  · exact ⟨cls, key, hcls, hm, hkey⟩
  · exact ⟨cls, key, hcls, ⟨rfl, hfield⟩, hkey⟩

/-- The code of a class finds what a class of the same name has under its private key. -/
lemma search_namesake {callerId : ClassId} (hsettled : (r.isRelated callerId id).isSome)
    (hcls : r.get? id = some cls) (hheld : cls.Holds side (Class.key .isPrivate cls.name name)) :
    ∃ found, r.search (some (callerId, cls.name)) side name id = .found found ∧ found.owner = id ∧
      found.StandsIn cls side (Class.key .isPrivate cls.name name) := by
  -- The private key is the first one that is tried.
  have hfirst : ∃ found, found.owner = id ∧
      found.StandsIn cls side (Class.key .isPrivate cls.name name) ∧
      Found.inClass? id cls side (r.visibleKeys (some (callerId, cls.name)) name id) = some found := by
    simp only [Found.inClass?, visibleKeys, List.cons_append, List.findSome?_cons]
    cases hm : (cls.members side).get? (Class.key .isPrivate cls.name name) with
    | some m => exact ⟨.member id m, rfl, hm, rfl⟩
    | none =>
      have hfield : cls.hasField side (Class.key .isPrivate cls.name name) = true :=
        hheld.resolve_left (by simp [Table.contains, hm])
      exact ⟨.field id _, rfl, ⟨rfl, hfield⟩, by simp [hfield]⟩
  obtain ⟨found, howner, hstands, hin⟩ := hfirst
  refine ⟨found, ?_, howner, hstands⟩
  have hsettles : r.settles (some (callerId, cls.name)) id = true := hsettled
  simp only [search, searchWithin, hcls, hsettles, if_true, hin]

end Registry

lemma Context.Caller.exists_class {c : Context} {s : State} {id : ClassId} {name : String}
    (h : c.Caller s (some (id, name))) :
    ∃ cls, c.owner = some id ∧ s.registry.get? id = some cls ∧ cls.name = name := by
  cases h with
  | inside howner hcls => exact ⟨_, howner, hcls, rfl⟩

/-- No colon stands in the name of the class that code runs in. -/
lemma Context.Caller.colon_not_mem {c : Context} {s : State} {caller : Option (ClassId × String)}
    (h : c.Caller s caller) (hs : s.registry.Named) : ∀ p ∈ caller, ':' ∉ p.2.toList := by
  rintro ⟨callerId, callerName⟩ hp
  rw [Option.mem_def.mp hp] at h
  obtain ⟨callerCls, -, hget, rfl⟩ := h.exists_class
  exact (hs _ _ hget).colon_not_mem

/-- Looking for an identifier finds only what the code may use. -/
lemma openTo_of_search {s : State} {c : Context} {caller : Option (ClassId × String)} {side : Side}
    {name : String} {start : ClassId} {found : Registry.Found} (hs : s.registry.Named)
    (hname : Grammar.IsIdentifier name) (hcaller : c.Caller s caller)
    (h : s.registry.search caller side name start = .found found) :
    found.OpenTo c s.registry side name := by
  obtain ⟨cls, key, hcls, hstands, hkey⟩ := Registry.standsIn_of_search h
  obtain ⟨visibility, className, rfl⟩ := Registry.exists_eq_key_of_visible hkey
  refine ⟨cls, visibility, className, hcls, hstands, fun hprivate => ?_⟩
  obtain ⟨other, hother⟩ := hprivate.exists_eq_key
  rw [hother] at hkey
  obtain ⟨callerId, rfl⟩ := Registry.caller_of_key_private hname.colon_not_mem
    (hs _ _ hcls).colon_not_mem (hcaller.colon_not_mem hs) hkey
  obtain ⟨callerCls, howner, hget, heq⟩ := hcaller.exists_class
  exact ⟨callerId, callerCls, howner, hget, heq, fun hunique => hunique callerId callerCls hget heq⟩

/-! ## Reading and writing members -/

namespace Evaluator

variable (self : Evaluator) (c : Context) (target : Target) (name : String)

/-- Reading what was found. -/
def getFound : Registry.Found → Exec Value
  | .field owner key => readField target owner key
  | .member owner (.method m) => Exec.newFunction (.bound owner m target.receiver)
  | .member owner (.property (some getter) _) => self.callMethod c owner getter target.receiver []
  | .member _ (.property none _) => Exec.fail (.writeOnly name)
  | .member _ (.indexer _ _) => Exec.fail (.memberNotFound name)

/-- Writing what was found. -/
def setFound (value : Value) : Registry.Found → Exec Unit
  | .field owner key => writeField target owner key value
  | .member owner (.property _ (some setter)) => do
    let _ ← self.callMethod c owner setter target.receiver [value]
  | .member _ (.property _ none) => Exec.fail (.readOnly name)
  | .member _ (.method _) => Exec.fail (.readOnly name)
  | .member _ (.indexer _ _) => Exec.fail (.memberNotFound name)

/-- The ways to read and write a member, each with what it does with what is found. -/
inductive Access (s : State) : {α : Type} → (Registry.Found → Exec α) → Exec α → Prop
  | get {v} : Target.ofValue? s.heap v = some target →
      Access s (self.getFound c target name) (self.memberOf c v name)
  | set {v value} : Target.ofValue? s.heap v = some target →
      Access s (self.setFound c target name value) (self.setMember c v name value)
  | getSuper : (Target.ofSuper c).run s = .ok target s →
      Access s (self.getFound c target name) (self.getSuperMember c name)
  | setSuper {value} : (Target.ofSuper c).run s = .ok target s →
      Access s (self.setFound c target name value) (self.setSuperMember c name value)

lemma getClassMember_eq : self.getClassMember c target name =
    resolve c target name >>= fun found => found.elim (Exec.fail (.memberNotFound name))
      (self.getFound c target name) := by
  refine bind_congr fun found => ?_
  rcases found with _ | ⟨owner, key⟩ | ⟨owner, m | ⟨_ | getter, setter⟩ | _⟩ <;> rfl

lemma setClassMember_eq (value : Value) : self.setClassMember c target name value =
    resolve c target name >>= fun found => found.elim (Exec.fail (.memberNotFound name))
      (self.setFound c target name value) := by
  refine bind_congr fun found => ?_
  rcases found with _ | ⟨owner, key⟩ | ⟨owner, m | ⟨getter, _ | setter⟩ | _⟩ <;> rfl

variable {self c target name} {α : Type} {act : Registry.Found → Exec α} {x : Exec α} {s : State}

/-- Every access looks for the member and does something only with what is found. -/
lemma Access.run_eq (h : Access self c target name s act x) :
    x.run s = (resolve c target name >>= fun found =>
      found.elim (Exec.fail (.memberNotFound name)) act).run s := by
  have hheap : (MonadState.get : Exec State).run s = .ok s s := rfl
  cases h with
  | get hv =>
    rw [← getClassMember_eq]
    unfold memberOf
    rw [run_bind_ok hheap]
    simp only [hv]
  | set hv =>
    rw [← setClassMember_eq]
    unfold setMember
    rw [run_bind_ok hheap]
    simp only [hv]
  | getSuper htarget =>
    rw [← getClassMember_eq]
    exact run_bind_ok htarget
  | setSuper htarget =>
    rw [← setClassMember_eq]
    exact run_bind_ok htarget

end Evaluator

/-! ## Private members and namesakes -/

/-- Code of a class finds what a class of the same name declares as private. -/
lemma resolve_namesake {s : State} {c : Context} (target : Target) (name : String) {id : ClassId}
    {caller cls : Class} (howner : c.owner = some id) (hcaller : s.registry.get? id = some caller)
    (hcls : s.registry.get? target.start = some cls) (heq : caller.name = cls.name)
    (hsettled : (s.registry.isRelated id target.start).isSome)
    (hprivate : cls.DeclaresPrivate target.side (Class.key .isPrivate cls.name name)) :
    ∃ found, (resolve c target name).run s = .ok (some found) s ∧ found.owner = target.start ∧
      found.StandsIn cls target.side (Class.key .isPrivate cls.name name) := by
  obtain ⟨found, hsearch, hfound, hstands⟩ := Registry.search_namesake hsettled hcls hprivate.holds
  refine ⟨found, ?_, hfound, hstands⟩
  have hinside : c.Caller s (some (id, caller.name)) := .inside howner hcaller
  rw [hinside.run_resolve, heq]
  simp [resolveFor, hsearch]

/-- **Private members.**  Where all classes are named by identifiers, code that looks for an identifier
finds a private member only if it runs in a class with the name of the class that declares it.  Reading
and writing members, of values and of `super`, fails and changes nothing or is done on what the code may
use.  In the class that declares it, code of a class of this name does find a private member, unless the
search does not end because of circles in the chains of the two classes. -/
theorem private_members_open_to_namesakes {s : State} (hs : s.registry.Named) (c : Context)
    (target : Target) {name : String} (hname : Grammar.IsIdentifier name) :
    (∀ found s', (resolve c target name).run s = .ok (some found) s' →
      s' = s ∧ found.OpenTo c s.registry target.side name) ∧
    (∀ (self : Evaluator) {α : Type} (act : Registry.Found → Exec α) (x : Exec α),
      self.Access c target name s act x → (∃ e, x.run s = .error e s) ∨
        ∃ found, found.OpenTo c s.registry target.side name ∧ x.run s = (act found).run s) ∧
    ∀ id caller cls, c.owner = some id → s.registry.get? id = some caller →
      s.registry.get? target.start = some cls → caller.name = cls.name →
      (s.registry.isRelated id target.start).isSome →
      cls.DeclaresPrivate target.side (Class.key .isPrivate cls.name name) →
      ∃ found, (resolve c target name).run s = .ok (some found) s ∧ found.owner = target.start ∧
        found.StandsIn cls target.side (Class.key .isPrivate cls.name name) := by
  have hresolved := resolved_run c target name s
  refine ⟨fun found s' hrun => ?_, fun self α act x hx => ?_,
    fun id caller cls => resolve_namesake target name⟩
  · rw [hrun] at hresolved
    cases hresolved with
    | found hcaller hsearch => exact ⟨rfl, openTo_of_search hs hname hcaller hsearch⟩
  · rw [hx.run_eq]
    generalize hrun : (resolve c target name).run s = outcome at hresolved
    cases hresolved with
    | failed | endless => exact .inl ⟨_, run_bind_error hrun⟩
    | absent => exact .inl ⟨_, run_bind_ok hrun⟩
    | @found caller found hcaller hsearch =>
      exact .inr ⟨found, openTo_of_search hs hname hcaller hsearch, run_bind_ok hrun⟩

/-- A class with a private field. -/
def keepingDecl : ClassDecl :=
  ⟨"A", none, [⟨"x", .isPrivate, false, .field (some ⟨⟨2, 25⟩, .literal (.boolean true)⟩), ⟨2, 13⟩⟩],
    ⟨2, 3⟩⟩

/-- What becomes of it. -/
def keepingClass (c : Context) : Class :=
  ⟨"A", none, .script c none, {}, {}, [⟨"A::x", some ⟨⟨2, 25⟩, .literal (.boolean true)⟩⟩], {}⟩

/-- A new interpreter in which the class is created. -/
def keepingState : State :=
  ((Evaluator.within 12).createClass Interpreter.root keepingDecl).after newState

lemma declaresPrivate_keepingClass (c : Context) :
    (keepingClass c).DeclaresPrivate .ofInstance "A::x" :=
  ⟨keepingDecl, ⟨none, c, _, rfl, .refl _⟩, _, List.mem_singleton.mpr rfl, rfl, "x", by decide, rfl⟩

lemma registry_createClass_keepingDecl (ev : Evaluator) (c : Context) (s : State) :
    ((ev.createClass c keepingDecl).after s).registry = (s.registry.insert (keepingClass c)).2 := rfl

lemma size_registry_newState : newState.registry.size = 0 := by decide +kernel

lemma registry_keepingState :
    keepingState.registry = (newState.registry.insert (keepingClass Interpreter.root)).2 :=
  registry_createClass_keepingDecl _ _ _

lemma get?_keepingState : keepingState.registry.get? ⟨0⟩ = some (keepingClass Interpreter.root) := by
  rw [registry_keepingState, Registry.get?_insert, size_registry_newState, if_pos rfl]

lemma named_keepingState : keepingState.registry.Named := by
  have hA : Grammar.IsIdentifier "A" := by decide +kernel
  rw [registry_keepingState]
  refine Registry.Named.insert (fun id cls h => ?_) hA
  have hlt := Registry.lt_size_of_get? h
  rw [size_registry_newState] at hlt
  omega

/-- The class itself finds its private field, and code outside of classes does not. -/
theorem private_members_open_to_namesakes_keeping :
    keepingState.registry.Named ∧ Grammar.IsIdentifier "x" ∧
      (∃ found, (resolve (.method ⟨0⟩ Interpreter.root ⟨0⟩ none) ⟨⟨0⟩, .ofInstance, none⟩ "x").run
        keepingState = .ok (some found) keepingState ∧
          found.StandsIn (keepingClass Interpreter.root) .ofInstance "A::x") ∧
      ∀ found s', found.owner = ⟨0⟩ →
        (resolve Interpreter.root ⟨⟨0⟩, .ofInstance, none⟩ "x").run keepingState ≠
          .ok (some found) s' := by
  have hx : Grammar.IsIdentifier "x" := by decide +kernel
  have hfinds := private_members_open_to_namesakes named_keepingState
    (.method ⟨0⟩ Interpreter.root ⟨0⟩ none) ⟨⟨0⟩, .ofInstance, none⟩ hx
  have hmisses := private_members_open_to_namesakes named_keepingState Interpreter.root
    ⟨⟨0⟩, .ofInstance, none⟩ hx
  refine ⟨named_keepingState, hx, ?_, fun found s' howner hrun => ?_⟩
  · obtain ⟨found, hrun, -, hstands⟩ := hfinds.2.2 _ _ _ rfl get?_keepingState get?_keepingState rfl rfl
      (declaresPrivate_keepingClass _)
    exact ⟨found, hrun, hstands⟩
  · obtain ⟨-, cls, visibility, className, hcls, hstands, hopen⟩ := hmisses.1 found s' hrun
    rw [howner, get?_keepingState] at hcls
    cases hcls
    have hkey : "A::x" = Class.key visibility className "x" := by
      cases found with
      | field owner key' => simpa [keepingClass, Class.hasField] using hstands.2
      | member owner m => cases hstands
    obtain ⟨id, -, hid, -⟩ := hopen (hkey ▸ declaresPrivate_keepingClass _)
    cases hid

/-- A class of the same name with a method that reads the field of its argument. -/
def peekingDecl : ClassDecl :=
  let read : Stmt := ⟨⟨3, 23⟩, .returnValue (some ⟨⟨3, 31⟩, .member ⟨⟨3, 30⟩, .variable "v"⟩ "x"⟩)⟩
  let peek : FunctionDecl := ⟨some "peek", [.ofName "v"], [read], ⟨3, 13⟩⟩
  ⟨"A", none, [⟨"peek", .isPublic, false, .method peek, ⟨3, 13⟩⟩], ⟨3, 3⟩⟩

/-- The two classes, each in a block of its own.  The method of the second one gets an instance of the
first. -/
def namesakesScript : List Stmt :=
  let make (place name : Position) : Expr := ⟨place, .new ⟨name, .variable "A"⟩ []⟩
  [⟨⟨1, 1⟩, .variables [("o", none)]⟩,
    ⟨⟨2, 1⟩, .block [⟨⟨2, 3⟩, .classDecl keepingDecl⟩,
      ⟨⟨2, 31⟩, .expr ⟨⟨2, 33⟩, .binary "=" ⟨⟨2, 31⟩, .variable "o"⟩ (make ⟨2, 35⟩ ⟨2, 39⟩)⟩⟩]⟩,
    ⟨⟨3, 1⟩, .block [⟨⟨3, 3⟩, .classDecl peekingDecl⟩,
      ⟨⟨3, 40⟩, .returnValue (some ⟨⟨3, 60⟩, .call ⟨⟨3, 54⟩, .member (make ⟨3, 47⟩ ⟨3, 51⟩) "peek"⟩
        [⟨⟨3, 61⟩, .variable "o"⟩]⟩)⟩]⟩]

/-- The second class is created after the first. -/
def namesakesState : State :=
  ((Evaluator.within 12).createClass Interpreter.root peekingDecl).after keepingState

/-- The truth value that a computation gives. -/
def Exec.truth? (x : Exec Value) (s : State) : Option Bool :=
  match x.run s with
  | .ok (.boolean b) _ => some b
  | _ => none

lemma Exec.exists_run_of_truth? {x : Exec Value} {s : State} {b : Bool} (h : x.truth? s = some b) :
    ∃ s', x.run s = .ok (.boolean b) s' := by
  unfold truth? at h
  split at h
  next s' hrun =>
    cases h
    exact ⟨s', hrun⟩
  next => cases h

lemma exists_registry_createClass_peekingDecl (ev : Evaluator) (c : Context) (s : State) :
    ∃ cls, cls.name = "A" ∧
      ((ev.createClass c peekingDecl).after s).registry = (s.registry.insert cls).2 :=
  ⟨_, rfl, rfl⟩

/-- The method reads the private field, for the second class finds what the first declares. -/
theorem namesake_reads_private_field :
    (∃ s, (Interpreter.run (Evaluator.within 12) namesakesScript).run newState = .ok (.boolean true) s) ∧
      namesakesState.registry.Named ∧ ∃ c target found cls,
        (resolve c target "x").run namesakesState = .ok (some found) namesakesState ∧
        namesakesState.registry.get? found.owner = some cls ∧
        found.StandsIn cls target.side "A::x" ∧ cls.DeclaresPrivate target.side "A::x" ∧
        c.owner ≠ some found.owner := by
  obtain ⟨peeking, hname, hregistry⟩ := exists_registry_createClass_peekingDecl (Evaluator.within 12)
    Interpreter.root keepingState
  have hsize : keepingState.registry.size = 1 := by decide +kernel
  have hfirst : namesakesState.registry.get? ⟨0⟩ = some (keepingClass Interpreter.root) := by
    rw [namesakesState, hregistry]
    exact Registry.get?_insert_of_some get?_keepingState _
  have hsecond : namesakesState.registry.get? ⟨1⟩ = some peeking := by
    rw [namesakesState, hregistry, Registry.get?_insert, hsize, if_pos rfl]
  refine ⟨?_, ?_, ?_⟩
  · exact Exec.exists_run_of_truth? (by decide +kernel)
  · rw [namesakesState, hregistry]
    exact named_keepingState.insert (by rw [hname]; decide +kernel)
  · let c : Context := .method ⟨0⟩ Interpreter.root ⟨1⟩ none
    have howner : c.owner = some ⟨1⟩ := rfl
    have hsettled : (namesakesState.registry.isRelated ⟨1⟩ ⟨0⟩).isSome := by decide +kernel
    obtain ⟨found, hrun, hfound, hstands⟩ := resolve_namesake ⟨⟨0⟩, .ofInstance, none⟩ "x" howner
      hsecond hfirst hname hsettled (declaresPrivate_keepingClass _)
    refine ⟨c, ⟨⟨0⟩, .ofInstance, none⟩, found, keepingClass Interpreter.root, hrun, ?_, hstands,
      declaresPrivate_keepingClass _, ?_⟩
    · rw [hfound]
      exact hfirst
    · rw [hfound, howner]
      simp

end ScriptLang
