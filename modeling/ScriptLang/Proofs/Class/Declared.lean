/-
What a class declares, and what it holds.

A class is made from the declaration in a script or from the description that a host gives.  Both declare
names on two sides, each with its visibility, and the class holds something under the key of each of them
and under no other key (`ClassSource.Describes.holds_iff`).  Names are identifiers or are made from
identifiers, so that neither a colon nor the mark of protected names stands in them.  The visibility and
the name can then be read off a key (`Class.key_inj`), and holding something under a key is the same as
declaring the name with this visibility (`ClassSource.Describes.holds_key_iff`).
-/
import ScriptLang.Proofs.Class.Privacy
import ScriptLang.Proofs.Eval.Sessions

namespace ScriptLang

/-! ## Names and keys -/

/-- The names of members: identifiers, the name of all indexers, and the names of the fields behind
properties. -/
def Class.IsName (name : String) : Prop :=
  Grammar.IsIdentifier name ∨ name = MemberDecl.indexerName ∨
    ∃ property, Grammar.IsIdentifier property ∧ name = Class.hiddenName property

lemma Grammar.IsIdentifier.mark_not_mem {text : String} (h : IsIdentifier text) :
    '#' ∉ text.toList := by
  have hscan : '#' ∉ text.toList.take (identifier.scan text.toList).2 :=
    Rule.not_mem_take_scan (by decide) _
  rwa [h, ← String.length_toList, List.take_length] at hscan

namespace Class

variable {a b name other : String} {v v' : Visibility}

/-- Neither of the characters that mark keys stands in a name. -/
lemma IsName.unmarked (h : IsName name) : ':' ∉ name.toList ∧ '#' ∉ name.toList := by
  rcases h with h | rfl | ⟨property, h, rfl⟩
  · exact ⟨h.colon_not_mem, h.mark_not_mem⟩
  · decide
  · simp [hiddenName, h.colon_not_mem, h.mark_not_mem]

lemma toList_key_protected (a name : String) :
    (key .isProtected a name).toList = '#' :: name.toList := by
  simp [key]

/-- The visibility and the name can be read off a key, and off a private one the name of the class. -/
lemma key_inj (ha : ':' ∉ a.toList) (hb : ':' ∉ b.toList) (hname : IsName name) (hother : IsName other)
    (h : key v a name = key v' b other) : v = v' ∧ name = other ∧ (v = .isPrivate → a = b) := by
  obtain ⟨hcolon, hmark⟩ := hname.unmarked
  obtain ⟨hcolon', hmark'⟩ := hother.unmarked
  have hlists := congrArg String.toList h
  cases v <;> cases v'
  case isPublic.isPublic => exact ⟨rfl, h, nofun⟩
  case isProtected.isProtected =>
    rw [toList_key_protected, toList_key_protected] at hlists
    exact ⟨rfl, String.toList_inj.mp (List.cons.inj hlists).2, nofun⟩
  case isPrivate.isPrivate =>
    obtain rfl := name_eq_of_key_private ha hb h
    rw [toList_key_private, toList_key_private] at hlists
    have hrest := List.append_cancel_left hlists
    exact ⟨rfl, String.toList_inj.mp (by simpa using hrest), fun _ => rfl⟩
  case isPublic.isProtected =>
    rw [toList_key_protected] at hlists
    exact absurd (hlists ▸ List.mem_cons_self) hmark
  case isProtected.isPublic =>
    rw [toList_key_protected] at hlists
    exact absurd (hlists ▸ List.mem_cons_self) hmark'
  case isPrivate.isPublic => exact absurd h (key_private_ne hcolon' a name).1
  case isPublic.isPrivate => exact absurd h.symm (key_private_ne hcolon b other).1
  case isPrivate.isProtected => exact absurd h (key_private_ne hcolon' a name).2
  case isProtected.isPrivate => exact absurd h.symm (key_private_ne hcolon b other).2

end Class

/-! ## Where classes come from -/

/-- The names that a member of a declaration declares, each with its visibility.  The field behind a
property is always private. -/
def MemberDecl.declared (m : MemberDecl) : List (Visibility × String) :=
  match m.form with
  | .field _ | .method _ => [(m.visibility, m.name)]
  | .constructor _ => []
  | .property getter setter _ =>
    (m.visibility, m.name) ::
      if Draft.isAuto getter || Draft.isAuto setter then [(.isPrivate, Class.hiddenName m.name)] else []
  | .indexer _ _ => [(m.visibility, indexerName)]

/-- What a class is made from. -/
inductive ClassSource where
  | script (decl : ClassDecl)
  | host (description : HostClass)

namespace ClassSource

def name : ClassSource → String
  | .script decl => decl.name
  | .host h => h.name

/-- A name is declared on one side with a visibility.  All that a host declares is public. -/
def Declares (side : Side) (v : Visibility) (name : String) : ClassSource → Prop
  | .script decl => ∃ m ∈ decl.members, Side.ofStatic m.isStatic = side ∧ (v, name) ∈ m.declared
  | .host h => v = .isPublic ∧ (side = .ofInstance ∧ name ∈ h.fields ∨
      side = .ofClass ∧ name ∈ h.staticFields.map (·.1) ∨ ∃ m, (side, name, m) ∈ h.members)

/-- The class was made from this, and nothing but the values of its own fields has changed since. -/
def Describes (cls : Class) : ClassSource → Prop
  | .script decl => decl.Describes cls
  | .host h => ∃ made, h.toClass = .ok made ∧ made.Revised cls

/-- The class is named by an identifier, and all that it declares has a proper name. -/
structure Named (source : ClassSource) : Prop where
  name : Grammar.IsIdentifier source.name
  declared : ∀ side v name, source.Declares side v name → Class.IsName name

end ClassSource

/-! ## What a class holds -/

namespace Class

variable {cls cls' : Class} {side other : Side} {key key' : String} {member : Member}

lemma holds_addMember_iff :
    (cls.addMember other key' member).Holds side key ↔ cls.Holds side key ∨ other = side ∧ key = key' := by
  constructor
  · rintro (h | h)
    · cases other <;> cases side <;>
        simp only [Class.addMember, members, Table.contains, Table.get?_insert] at h
      · split at h
        next heq => exact .inr ⟨rfl, heq⟩
        next => exact .inl (.inl h)
      · exact .inl (.inl h)
      · exact .inl (.inl h)
      · split at h
        next heq => exact .inr ⟨rfl, heq⟩
        next => exact .inl (.inl h)
    · refine .inl (.inr ?_)
      cases other <;> exact h
  · rintro (h | ⟨rfl, rfl⟩)
    · exact h.addMember
    · exact holds_addMember

lemma Revised.holds_iff (h : cls.Revised cls') : cls'.Holds side key ↔ cls.Holds side key := by
  rw [Holds, Holds, h.members, h.hasField]

end Class

namespace Draft

variable {d d' draft : Draft} {m : MemberDecl} {decl : ClassDecl} {parent : Option ClassId} {c : Context}
  {side other : Side} {key key' : String}

lemma holds_addField_iff {initializer : Option Expr} :
    (d.addField other key' initializer).partialClass.Holds side key ↔
      d.partialClass.Holds side key ∨ other = side ∧ key = key' := by
  constructor
  · rintro (h | h)
    · refine .inl (.inl ?_)
      cases other <;> exact h
    · cases other <;> cases side <;>
        simp only [Draft.addField, Class.setField, Class.hasField, Table.contains, Table.get?_insert] at h
      · rw [List.any_append, Bool.or_eq_true] at h
        rcases h with h | h
        · exact .inl (.inr h)
        · simp only [List.any_cons, List.any_nil, Bool.or_false, beq_iff_eq] at h
          exact .inr ⟨rfl, h.symm⟩
      · exact .inl (.inr h)
      · exact .inl (.inr h)
      · split at h
        next heq => exact .inr ⟨rfl, heq⟩
        next => exact .inl (.inr h)
  · rintro (h | ⟨rfl, rfl⟩)
    · exact Holds.addField h
    · exact holds_addField _ _ _ _

/-- A member adds what it declares, and nothing else. -/
lemma Adds.holds_iff (h : d.Adds m d') : d'.partialClass.Holds side key ↔
    d.partialClass.Holds side key ∨ Side.ofStatic m.isStatic = side ∧
      ∃ entry ∈ m.declared, key = Class.key entry.1 d.name entry.2 := by
  cases h with
  | field hform =>
    simp only [MemberDecl.declared, hform, List.mem_singleton, exists_eq_left]
    exact holds_addField_iff
  | constructor hform => simp [MemberDecl.declared, hform]
  | autoProperty hform hauto =>
    simp only [MemberDecl.declared, hform, hauto, if_true, List.mem_cons, List.not_mem_nil, or_false,
      exists_eq_or_imp, exists_eq_left]
    refine Class.holds_addMember_iff.trans ?_
    rw [holds_addField_iff]
    tauto
  | property hform hauto =>
    simp only [MemberDecl.declared, hform, hauto, Bool.false_eq_true, if_false, List.mem_singleton,
      exists_eq_left]
    exact Class.holds_addMember_iff
  | method hform | indexer hform =>
    simp only [MemberDecl.declared, hform, List.mem_singleton, exists_eq_left]
    exact Class.holds_addMember_iff

/-- A declaration gives a class that holds what its members declare. -/
lemma holds_ofDecl_iff (h : ofDecl decl parent c = .ok draft) : draft.partialClass.Holds side key ↔
    ∃ m ∈ decl.members, Side.ofStatic m.isStatic = side ∧
      ∃ entry ∈ m.declared, key = Class.key entry.1 decl.name entry.2 := by
  refine (ofDecl_visits h (P := fun done d => d.name = decl.name ∧ (d.partialClass.Holds side key ↔
    ∃ m ∈ done, Side.ofStatic m.isStatic = side ∧
      ∃ entry ∈ m.declared, key = Class.key entry.1 decl.name entry.2)) ⟨rfl, ?_⟩ ?_).2
  · have hnone : ¬(start decl parent c).partialClass.Holds side key := by
      cases side <;> rintro (h | h) <;> cases h
    simp [hnone]
  · rintro done m - d d' ⟨hname, hd⟩ hadds
    refine ⟨hadds.name_eq.trans hname, ?_⟩
    rw [hadds.holds_iff, hd, hname]
    simp [or_and_right, exists_or]

end Draft

lemma Table.contains_ofList_iff {α : Type} {entries : List (String × α)} {name : String} :
    (Table.ofList entries).contains name = true ↔ name ∈ entries.map (·.1) := by
  induction entries using List.reverseRecOn with
  | nil => simp [Table.ofList, Table.contains]
  | append_singleton entries e ih =>
    have hlast : Table.ofList (entries ++ [e]) = (Table.ofList entries).insert e.1 e.2 := by
      simp [Table.ofList]
    rw [Table.contains] at ih
    rw [hlast, Table.contains, Table.get?_insert, List.map_append, List.mem_append, ← ih]
    split
    next heq => simp [heq]
    next hne => simp [hne]

/-- A description gives a class that holds what it lists. -/
lemma HostClass.holds_toClass_iff {h : HostClass} {cls : Class} {side : Side} {key : String}
    (hcls : h.toClass = .ok cls) :
    cls.Holds side key ↔ (ClassSource.host h).Declares side .isPublic key := by
  have hholds := toClass_visits hcls (P := fun done c => c.Holds side key ↔
    (side = .ofInstance ∧ key ∈ h.fields ∨ side = .ofClass ∧ key ∈ h.staticFields.map (·.1)) ∨
      ∃ m, (side, key, m) ∈ done) ?_ ?_
  · rw [hholds]
    simp [ClassSource.Declares, or_assoc]
  · -- Without members there are only the fields.
    cases side with
    | ofInstance => simp [Class.Holds, Class.members, Class.hasField, Table.contains, Table.get?]
    | ofClass =>
      have hfields : (Table.ofList h.staticFields).contains key = true ↔ key ∈ h.staticFields.map (·.1) :=
        Table.contains_ofList_iff
      simp [Class.Holds, Class.members, Class.hasField, Table.contains, Table.get?] at hfields ⊢
      exact hfields
  · rintro done ⟨other, key', m⟩ - c hc
    rw [Class.holds_addMember_iff, hc, or_assoc]
    refine or_congr_right ?_
    simp only [List.mem_append, List.mem_singleton, Prod.mk.injEq, exists_or]
    refine or_congr_right ⟨?_, ?_⟩
    · rintro ⟨rfl, rfl⟩
      exact ⟨m, rfl, rfl, rfl⟩
    · rintro ⟨_, rfl, rfl, -⟩
      exact ⟨rfl, rfl⟩

namespace ClassSource.Describes

variable {source : ClassSource} {cls : Class}

lemma name_eq (h : source.Describes cls) : cls.name = source.name := by
  cases source with
  | script decl => exact ClassDecl.Describes.name h
  | host description =>
    obtain ⟨made, hmade, hrev⟩ := h
    rw [hrev.name]
    refine HostClass.toClass_induct hmade (P := fun c => c.name = description.name) rfl ?_
    intro entry _ c hc
    exact (Class.name_addMember _ _ _ _).trans hc

variable {side : Side} {key name a : String} {v : Visibility}

/-- **A class holds what it declares.**  There is something under the key of each name that is declared,
and under no other key. -/
theorem holds_iff (h : source.Describes cls) : cls.Holds side key ↔
    ∃ v name, source.Declares side v name ∧ key = Class.key v cls.name name := by
  rw [h.name_eq]
  cases source with
  | script decl =>
    obtain ⟨parent, c, draft, hdraft, hrev⟩ := h
    have hfinish : (draft.finish c).Holds side key ↔ draft.partialClass.Holds side key := by
      cases side <;> exact Iff.rfl
    rw [hrev.holds_iff, hfinish, Draft.holds_ofDecl_iff hdraft]
    constructor
    · rintro ⟨m, hm, hside, ⟨v, name⟩, hentry, hkey⟩
      exact ⟨v, name, ⟨m, hm, hside, hentry⟩, hkey⟩
    · rintro ⟨v, name, ⟨m, hm, hside, hentry⟩, hkey⟩
      exact ⟨m, hm, hside, (v, name), hentry, hkey⟩
  | host description =>
    obtain ⟨made, hmade, hrev⟩ := h
    rw [hrev.holds_iff, HostClass.holds_toClass_iff hmade]
    constructor
    · intro hkey
      exact ⟨.isPublic, key, hkey, rfl⟩
    · rintro ⟨v, name, ⟨rfl, hlisted⟩, rfl⟩
      exact ⟨rfl, hlisted⟩

/-- A class of names holds something under a key if it declares the name with this visibility, and under
a private key only if the key carries its own name. -/
lemma holds_key_iff (h : source.Describes cls) (hsource : source.Named) (hname : Class.IsName name)
    (ha : ':' ∉ a.toList) : cls.Holds side (Class.key v a name) ↔
      source.Declares side v name ∧ (v = .isPrivate → a = cls.name) := by
  have hcls : ':' ∉ cls.name.toList := by
    rw [h.name_eq]
    exact hsource.name.colon_not_mem
  rw [h.holds_iff]
  constructor
  · rintro ⟨v', other, hdeclares, hkey⟩
    have hother := hsource.declared side v' other hdeclares
    obtain ⟨rfl, rfl, hprivate⟩ := Class.key_inj ha hcls hname hother hkey
    exact ⟨hdeclares, hprivate⟩
  · rintro ⟨hdeclares, hprivate⟩
    refine ⟨v, name, hdeclares, ?_⟩
    cases v with
    | isPublic | isProtected => rfl
    | isPrivate => rw [hprivate rfl]

end ClassSource.Describes

end ScriptLang
