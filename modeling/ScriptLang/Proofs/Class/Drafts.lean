/-
What a declaration lists, and what is made of it.

A declaration lists members, fields and keys on two sides of its class.  Adding its members one after the other
gives the tables of what it lists (`Draft.members_of_ofDecl`, `Draft.statics_of_ofDecl`), unless a member is
refused.  This happens for a reason that can be read off the members before it: a key that is taken, a second
constructor, or a second indexer of a side (`ClassDecl.Refuses`).  Whether the key of an indexer is taken is
not asked.
-/
import ScriptLang.Proofs.Class.Construction
import ScriptLang.Proofs.Class.Declared

namespace ScriptLang

/-! ## Tables -/

namespace Table

variable {α : Type} {name : String} {value : α} {es : List (String × α)} {e : String × α}

lemma mem_insertEntry_self : (name, value) ∈ insertEntry name value es := by
  induction es with
  | nil => exact List.mem_cons_self
  | cons e es ih =>
    unfold insertEntry
    split
    · exact List.mem_cons_self
    · split
      · exact List.mem_cons_self
      · exact List.mem_cons_of_mem e ih

lemma mem_of_mem_insertEntry (h : e ∈ insertEntry name value es) : e = (name, value) ∨ e ∈ es := by
  induction es with
  | nil => exact .inl (List.mem_singleton.mp h)
  | cons e' es ih =>
    unfold insertEntry at h
    split at h
    · exact (List.mem_cons.mp h).imp_right (List.mem_cons_of_mem e')
    · split at h
      · exact List.mem_cons.mp h
      · rcases List.mem_cons.mp h with rfl | h
        · exact .inr List.mem_cons_self
        · exact (ih h).imp_right (List.mem_cons_of_mem e')

lemma mem_insertEntry_of_ne (h : e ∈ es) (hne : e.1 ≠ name) : e ∈ insertEntry name value es := by
  induction es with
  | nil => cases h
  | cons e' es ih =>
    unfold insertEntry
    split
    next heq =>
      rcases List.mem_cons.mp h with rfl | h
      · exact absurd heq.symm hne
      · exact List.mem_cons_of_mem _ h
    next =>
      split
      · exact List.mem_cons_of_mem _ h
      · rcases List.mem_cons.mp h with rfl | h
        · exact List.mem_cons_self
        · exact List.mem_cons_of_mem _ (ih h)

lemma ne_of_not_contains {t : Table α} (h : t.contains name = false) (he : e ∈ t.entries) : e.1 ≠ name := by
  rintro rfl
  have hnone : t.entries.lookup e.1 = none := by simpa [contains, get?] using h
  have hother := List.lookup_eq_none_iff.mp hnone e he
  simp at hother

/-- A new value counts besides the others, unless it takes the place of one that counted. -/
lemma any_insert {t : Table α} {p : α → Bool} (h : p value = true ∨ t.contains name = false) :
    (t.insert name value).entries.any (p ·.2) = true ↔ p value = true ∨ t.entries.any (p ·.2) = true := by
  simp only [List.any_eq_true, insert]
  constructor
  · rintro ⟨e, he, hp⟩
    rcases mem_of_mem_insertEntry he with rfl | he
    · exact .inl hp
    · exact .inr ⟨e, he, hp⟩
  · rintro (hp | ⟨e, he, hp⟩)
    · exact ⟨_, mem_insertEntry_self, hp⟩
    · rcases h with hvalue | hfree
      · exact ⟨_, mem_insertEntry_self, hvalue⟩
      · exact ⟨e, mem_insertEntry_of_ne he (ne_of_not_contains hfree he), hp⟩

lemma ofList_append (entries later : List (String × α)) :
    ofList (entries ++ later) = later.foldl (fun t e => t.insert e.1 e.2) (ofList entries) :=
  List.foldl_append

end Table

/-! ## What a declaration lists -/

namespace MemberDecl

/-- The member of the class that is declared, under its key. -/
def entries (className : String) (m : MemberDecl) : List (String × Member) :=
  match m.form with
  | .method f => [(Class.key m.visibility className m.name, .method (.script f))]
  | .property getter setter _ =>
    [(Class.key m.visibility className m.name,
      .property (getter.map (Draft.accessor (Draft.autoGetter m)))
        (setter.map (Draft.accessor (Draft.autoSetter m))))]
  | .indexer getter setter =>
    [(Class.key m.visibility className indexerName,
      .indexer (getter.map .script) (setter.map .script))]
  | .field _ | .constructor _ => []

/-- The field that is declared, on whatever side. -/
def slots (className : String) (m : MemberDecl) : List Field :=
  match m.form with
  | .field initializer => [⟨Class.key m.visibility className m.name, initializer⟩]
  | .property getter setter initializer =>
    if Draft.isAuto getter || Draft.isAuto setter then
      [⟨Class.key .isPrivate className (Class.hiddenName m.name), initializer⟩]
    else []
  | _ => []

/-- The keys of all that is declared. -/
def keys (className : String) (m : MemberDecl) : List String :=
  m.declared.map fun d => Class.key d.1 className d.2

def isIndexer (m : MemberDecl) : Bool :=
  match m.form with
  | .indexer _ _ => true
  | _ => false

variable {className : String} {m : MemberDecl}

lemma keys_eq : m.keys className = (m.entries className).map (·.1) ++ (m.slots className).map (·.key) := by
  cases hform : m.form with
  | property getter setter initializer =>
    simp only [keys, declared, entries, slots, hform]
    split <;> rfl
  | _ => simp [keys, declared, entries, slots, hform]

lemma fields_eq : m.fields className = if m.isStatic then [] else m.slots className := rfl

lemma form_of_isIndexer (h : m.isIndexer = true) : ∃ getter setter, m.form = .indexer getter setter := by
  cases hform : m.form with
  | indexer getter setter => exact ⟨getter, setter, rfl⟩
  | _ => simp [isIndexer, hform] at h

/-- At most one member of the class is declared, and it is an indexer if an indexer is declared. -/
lemma entries_cases (className : String) (m : MemberDecl) :
    m.entries className = [] ∧ m.isIndexer = false ∨
      ∃ entry, m.entries className = [entry] ∧ entry.2.isIndexer = m.isIndexer := by
  cases hform : m.form with
  | field | constructor => exact .inl ⟨by simp [entries, hform], by simp [isIndexer, hform]⟩
  | method | property | indexer =>
    simp only [entries, isIndexer, hform]
    exact .inr ⟨_, rfl, rfl⟩

end MemberDecl

namespace ClassDecl

/-- The declaration with the given members only. -/
def upTo (decl : ClassDecl) (ms : List MemberDecl) : ClassDecl := { decl with members := ms }

lemma upTo_members (decl : ClassDecl) : decl.upTo decl.members = decl := by
  cases decl
  rfl

/-- The declaration with one more member. -/
def snoc (decl : ClassDecl) (m : MemberDecl) : ClassDecl := decl.upTo (decl.members ++ [m])

/-- Declarations get their members one after the other. -/
@[elab_as_elim]
lemma snocRec {P : ClassDecl → Prop} (empty : ∀ decl : ClassDecl, P (decl.upTo []))
    (snoc : ∀ (decl : ClassDecl) (m : MemberDecl), P decl → P (decl.snoc m)) (decl : ClassDecl) :
    P decl := by
  suffices h : ∀ ms, P (decl.upTo ms) from decl.upTo_members ▸ h decl.members
  intro ms
  induction ms using List.reverseRecOn with
  | nil => exact empty decl
  | append_singleton ms m ih => exact snoc (decl.upTo ms) m ih

/-- What the members of one side list, in the order of their declaration. -/
def listed {α : Type} (decl : ClassDecl) (side : Side) (f : MemberDecl → List α) : List α :=
  (decl.members.filter fun m => Side.ofStatic m.isStatic = side).flatMap f

/-- The members of the class that are declared on one side. -/
def entriesOn (decl : ClassDecl) (side : Side) : List (String × Member) :=
  decl.listed side (·.entries decl.name)

/-- The fields that are declared on one side. -/
def slotsOn (decl : ClassDecl) (side : Side) : List Field := decl.listed side (·.slots decl.name)

/-- The keys that are declared on one side. -/
def keysOn (decl : ClassDecl) (side : Side) : List String := decl.listed side (·.keys decl.name)

/-- An indexer is declared on one side. -/
def HasIndexer (decl : ClassDecl) (side : Side) : Prop :=
  ∃ m ∈ decl.members, Side.ofStatic m.isStatic = side ∧ m.isIndexer = true

variable {decl : ClassDecl} {m : MemberDecl} {side : Side} {key : String}

lemma listed_snoc {α : Type} (decl : ClassDecl) (f : MemberDecl → List α) : (decl.snoc m).listed side f =
    decl.listed side f ++ if Side.ofStatic m.isStatic = side then f m else [] := by
  simp only [listed, snoc, upTo, List.filter_append, List.flatMap_append, List.filter_singleton]
  split <;> simp_all

lemma entriesOn_snoc : (decl.snoc m).entriesOn side =
    decl.entriesOn side ++ if Side.ofStatic m.isStatic = side then m.entries decl.name else [] :=
  decl.listed_snoc _

lemma slotsOn_snoc : (decl.snoc m).slotsOn side =
    decl.slotsOn side ++ if Side.ofStatic m.isStatic = side then m.slots decl.name else [] :=
  decl.listed_snoc _

lemma keysOn_snoc : (decl.snoc m).keysOn side =
    decl.keysOn side ++ if Side.ofStatic m.isStatic = side then m.keys decl.name else [] :=
  decl.listed_snoc _

lemma hasIndexer_snoc : (decl.snoc m).HasIndexer side ↔
    decl.HasIndexer side ∨ Side.ofStatic m.isStatic = side ∧ m.isIndexer = true := by
  simp [HasIndexer, snoc, upTo, or_and_right, exists_or]

lemma mem_keysOn : key ∈ decl.keysOn side ↔ ∃ m ∈ decl.members, Side.ofStatic m.isStatic = side ∧
    ∃ d ∈ m.declared, key = Class.key d.1 decl.name d.2 := by
  simp [keysOn, listed, MemberDecl.keys, and_assoc, eq_comm]

lemma fields_eq_slotsOn (decl : ClassDecl) : decl.fields = decl.slotsOn .ofInstance := by
  induction decl using snocRec with
  | empty decl => rfl
  | snoc decl m ih =>
    have hfields : (decl.snoc m).fields = decl.fields ++ m.fields decl.name := by
      simp [fields, snoc, upTo]
    rw [hfields, ih, MemberDecl.fields_eq, slotsOn_snoc]
    cases m.isStatic <;> rfl

/-- The keys of one side are those of its members and those of its fields. -/
lemma keysOn_perm (decl : ClassDecl) (side : Side) : (decl.keysOn side).Perm
    ((decl.entriesOn side).map (·.1) ++ (decl.slotsOn side).map (·.key)) := by
  rw [keysOn, entriesOn, slotsOn, listed, listed, listed, List.map_flatMap, List.map_flatMap,
    List.flatMap_congr fun m _ => MemberDecl.keys_eq]
  exact (List.flatMap_append_perm _ _ _).symm

end ClassDecl

/-! ## What becomes of it -/

/-- The initial value of a field under its key. -/
def Field.initial? (f : Field) : Option (String × Expr) := f.initializer.map (f.key, ·)

lemma Class.members_addMember (cls : Class) (side other : Side) (key : String) (member : Member) :
    (cls.addMember side key member).members other =
      if side = other then (cls.members other).insert key member else cls.members other := by
  cases side <;> cases other <;> rfl

namespace Draft

variable {d d' draft : Draft} {m : MemberDecl} {decl : ClassDecl} {parent : Option ClassId} {c : Context}
  {side : Side} {key : String} {initializer : Option Expr}

lemma members_addField (other : Side) :
    (d.addField side key initializer).partialClass.members other = d.partialClass.members other := by
  cases side <;> cases other <;> rfl

/-- A member goes into the table of its side. -/
lemma Adds.members_eq (h : d.Adds m d') (side : Side) : d'.partialClass.members side =
    (if Side.ofStatic m.isStatic = side then m.entries d.name else []).foldl
      (fun t e => t.insert e.1 e.2) (d.partialClass.members side) := by
  cases h with
  | field hform =>
    rw [members_addField]
    simp [MemberDecl.entries, hform]
  | constructor hform => simp [MemberDecl.entries, hform]
  | autoProperty hform =>
    rw [addMember, Class.members_addMember, members_addField]
    simp only [MemberDecl.entries, hform]
    split <;> rfl
  | method hform | property hform | indexer hform =>
    rw [addMember, Class.members_addMember]
    simp only [MemberDecl.entries, hform]
    split <;> rfl

/-- A field of the class itself goes into the table of its fields, without a value, and into the list of
those that get an initial value. -/
lemma Adds.statics_eq (h : d.Adds m d') :
    d'.partialClass.staticFields =
      (if Side.ofStatic m.isStatic = .ofClass then m.slots d.name else []).foldl
        (fun t f => t.insert f.key .null) d.partialClass.staticFields ∧
    d'.staticInitializers = d.staticInitializers ++
      (if Side.ofStatic m.isStatic = .ofClass then m.slots d.name else []).filterMap Field.initial? := by
  have hslot : ∀ (side : Side) (key : String) (initializer : Option Expr),
      (d.addField side key initializer).partialClass.staticFields =
        (if side = .ofClass then [⟨key, initializer⟩] else [] : List Field).foldl
          (fun t f => t.insert f.key .null) d.partialClass.staticFields ∧
      (d.addField side key initializer).staticInitializers = d.staticInitializers ++
        (if side = .ofClass then [⟨key, initializer⟩] else [] : List Field).filterMap Field.initial? := by
    intro side key initializer
    cases side
    · simp [addField]
    · cases initializer <;> simp [addField, Class.setField, Field.initial?]
  cases h with
  | field hform =>
    simp only [MemberDecl.slots, hform]
    exact hslot _ _ _
  | constructor hform => simp [MemberDecl.slots, hform]
  | autoProperty hform hauto =>
    simp only [MemberDecl.slots, hform, hauto, if_true]
    rw [addMember, Class.staticFields_addMember]
    exact hslot _ _ _
  | property hform hauto =>
    simp only [MemberDecl.slots, hform, hauto, addMember, Class.staticFields_addMember]
    simp
  | method hform | indexer hform => simp [MemberDecl.slots, hform, addMember, Class.staticFields_addMember]

lemma name_of_ofDecl (h : ofDecl decl parent c = .ok draft) : draft.name = decl.name :=
  ofDecl_induct h (P := fun d => d.name = decl.name) rfl fun _ _ _ _ hd hadds => hadds.name_eq.trans hd

/-- The class has the tables of what is declared, in which later ones win. -/
lemma members_of_ofDecl (h : ofDecl decl parent c = .ok draft) (side : Side) :
    draft.partialClass.members side = .ofList (decl.entriesOn side) := by
  have hdone := ofDecl_visits h (P := fun done d => d.name = decl.name ∧
    d.partialClass.members side = .ofList ((decl.upTo done).entriesOn side)) ?_ ?_
  · rw [hdone.2, decl.upTo_members]
  · exact ⟨rfl, by cases side <;> rfl⟩
  · rintro done m - d d' ⟨hname, hmembers⟩ hadds
    refine ⟨hadds.name_eq.trans hname, ?_⟩
    have hsnoc : decl.upTo (done ++ [m]) = (decl.upTo done).snoc m := rfl
    rw [hadds.members_eq, hmembers, hname, hsnoc, ClassDecl.entriesOn_snoc, Table.ofList_append]
    rfl

lemma statics_of_ofDecl (h : ofDecl decl parent c = .ok draft) :
    draft.partialClass.staticFields = .ofList ((decl.slotsOn .ofClass).map fun f => (f.key, .null)) ∧
      draft.staticInitializers = (decl.slotsOn .ofClass).filterMap Field.initial? := by
  have hdone := ofDecl_visits h (P := fun done d => d.name = decl.name ∧
    d.partialClass.staticFields =
      .ofList (((decl.upTo done).slotsOn .ofClass).map fun f => (f.key, .null)) ∧
    d.staticInitializers = ((decl.upTo done).slotsOn .ofClass).filterMap Field.initial?) ?_ ?_
  · rw [decl.upTo_members] at hdone
    exact hdone.2
  · exact ⟨rfl, rfl, rfl⟩
  · rintro done m - d d' ⟨hname, hfields, hinitial⟩ hadds
    have hsnoc : decl.upTo (done ++ [m]) = (decl.upTo done).snoc m := rfl
    obtain ⟨hfields', hinitial'⟩ := hadds.statics_eq
    refine ⟨hadds.name_eq.trans hname, ?_, ?_⟩
    · rw [hfields', hfields, hname, hsnoc, ClassDecl.slotsOn_snoc, List.map_append, Table.ofList_append,
        List.foldl_map]
      rfl
    · rw [hinitial', hinitial, hname, hsnoc, ClassDecl.slotsOn_snoc, List.filterMap_append]
      rfl

lemma ofDecl_snoc (decl : ClassDecl) (m : MemberDecl) (parent : Option ClassId) (c : Context) :
    ofDecl (decl.snoc m) parent c = ofDecl decl parent c >>= (·.add m) := by
  have hstart : start (decl.snoc m) parent c = start decl parent c := rfl
  rw [ofDecl, ofDecl, hstart, ClassDecl.snoc, ClassDecl.upTo, List.foldlM_append]
  simp

/-- Unless it is an indexer, a member is added under a key that was free. -/
lemma free_of_add (h : d.add m = .ok d') (hindexer : m.isIndexer = false) {entry : String × Member}
    (hentry : entry ∈ m.entries d.name) :
    (d.partialClass.members (.ofStatic m.isStatic)).contains entry.1 = false := by
  have hfree : ∀ {key name : String} {u : Unit}, d.ensureFree (.ofStatic m.isStatic) key name = .ok u →
      (d.partialClass.members (.ofStatic m.isStatic)).contains key = false := by
    intro key name u hok
    unfold ensureFree at hok
    split at hok
    · cases hok
    · simp_all
  unfold add at h
  dsimp only at h
  cases hform : m.form with
  | field | constructor => simp [MemberDecl.entries, hform] at hentry
  | indexer => simp [MemberDecl.isIndexer, hform] at hindexer
  | method | property =>
    simp only [MemberDecl.entries, hform, List.mem_singleton] at hentry
    rw [hform] at h
    obtain ⟨u, hok, -⟩ := exists_ok_of_bind h
    rw [hentry]
    exact hfree hok

/-- The class has an indexer if one was declared.  A member that is added later does not take its place. -/
lemma any_isIndexer_iff (h : ofDecl decl parent c = .ok draft) (side : Side) :
    (draft.partialClass.members side).entries.any (·.2.isIndexer) = true ↔ decl.HasIndexer side := by
  induction decl using ClassDecl.snocRec generalizing draft with
  | empty decl =>
    cases h
    cases side <;> simp [ClassDecl.HasIndexer, ClassDecl.upTo, start, Class.members]
  | snoc decl m ih =>
    rw [ofDecl_snoc] at h
    obtain ⟨d, hd, hadd⟩ := exists_ok_of_bind h
    rw [(adds_of_add hadd).members_eq, ClassDecl.hasIndexer_snoc, ← ih hd]
    by_cases hside : Side.ofStatic m.isStatic = side
    · subst hside
      rw [if_pos rfl]
      -- Where an indexer goes does not matter, since it counts itself.  All others go where nothing was.
      rcases m.entries_cases d.name with ⟨hnone, hindexer⟩ | ⟨entry, hone, hindexer⟩
      · simp [hnone, hindexer]
      · have hplace : entry.2.isIndexer = true ∨
            (d.partialClass.members (.ofStatic m.isStatic)).contains entry.1 = false := by
          cases hm : m.isIndexer with
          | true => exact .inl (hindexer.trans hm)
          | false => exact .inr (free_of_add hadd hm (hone ▸ List.mem_cons_self))
        rw [hone, List.foldl_cons, List.foldl_nil, Table.any_insert hplace, hindexer, or_comm]
        simp
    · simp [hside]

end Draft

/-! ## Refused members -/

/-- A member cannot be added to a declaration, for a cause. -/
inductive ClassDecl.Refuses (decl : ClassDecl) (m : MemberDecl) : Cause → Prop
  | taken : m.constructor? = none → m.isIndexer = false →
      Class.key m.visibility decl.name m.name ∈ decl.keysOn (.ofStatic m.isStatic) →
      Refuses decl m (.duplicateMember decl.name m.name)
  | hidden {getter setter initializer} : m.form = .property getter setter initializer →
      (Draft.isAuto getter || Draft.isAuto setter) = true →
      Class.key m.visibility decl.name m.name ∉ decl.keysOn (.ofStatic m.isStatic) →
      Class.key .isPrivate decl.name (Class.hiddenName m.name) ∈ decl.keysOn (.ofStatic m.isStatic) →
      Refuses decl m (.duplicateMember decl.name (Class.hiddenName m.name))
  /-- A property without a hidden field has nothing that could get an initial value. -/
  | initializer {getter setter initializer} : m.form = .property getter setter (some initializer) →
      (Draft.isAuto getter || Draft.isAuto setter) = false →
      Class.key m.visibility decl.name m.name ∉ decl.keysOn (.ofStatic m.isStatic) →
      Refuses decl m (.typeMismatch
        ("property '" ++ m.name ++ "' has accessor bodies and cannot take an initializer"))
  | constructor {f} : m.form = .constructor f → m.isStatic = true ∨ decl.constructor?.isSome = true →
      Refuses decl m (.duplicateMember decl.name "constructor")
  | indexer {getter setter} : m.form = .indexer getter setter → decl.HasIndexer (.ofStatic m.isStatic) →
      Refuses decl m (.duplicateIndexer decl.name)

lemma ClassDecl.Refuses.ne_cancelled {decl : ClassDecl} {m : MemberDecl} {cause : Cause}
    (h : decl.Refuses m cause) : cause ≠ .cancelled := by
  cases h <;> nofun

namespace Draft

variable {draft : Draft} {m : MemberDecl} {decl : ClassDecl} {parent : Option ClassId} {c : Context}
  {cause : Cause}

lemma ensureFree_eq (h : ofDecl decl parent c = .ok draft) (side : Side) (key name : String) :
    draft.ensureFree side key name =
      if key ∈ decl.keysOn side then .error (.duplicateMember decl.name name) else .ok () := by
  have hheld : ((draft.partialClass.members side).contains key ||
      draft.partialClass.hasField side key) = true ↔ key ∈ decl.keysOn side := by
    rw [Bool.or_eq_true, ClassDecl.mem_keysOn]
    exact holds_ofDecl_iff h
  rw [ensureFree, name_of_ofDecl h]
  exact if_congr hheld rfl rfl

lemma constructor_of_ofDecl (h : ofDecl decl parent c = .ok draft) : draft.constructor = decl.constructor? :=
  (Origin.script.inj (finish_of_ofDecl h).1).2

/-- What the declaration refuses cannot be added. -/
lemma add_of_refuses (h : ofDecl decl parent c = .ok draft) (hrefuses : decl.Refuses m cause) :
    draft.add m = .error cause := by
  have hname := name_of_ofDecl h
  have hfree := ensureFree_eq h
  unfold add
  cases hrefuses with
  | taken hctor hindexer hkey =>
    cases hform : m.form with
    | constructor => simp [MemberDecl.constructor?, hform] at hctor
    | indexer => simp [MemberDecl.isIndexer, hform] at hindexer
    | field | method | property =>
      simp only [hname, hfree, if_pos hkey]
      rfl
  | hidden hform hauto hown hkey =>
    simp only [hform, hname, hfree, if_neg hown, addHiddenField, hauto, if_pos hkey, if_true]
    rfl
  | initializer hform hauto hown =>
    simp only [hform, hname, hfree, if_neg hown, addHiddenField, hauto]
    rfl
  | constructor hform hsecond =>
    simp only [hform, hname, constructor_of_ofDecl h, Bool.or_eq_true, if_pos hsecond]
    rfl
  | indexer hform hsecond =>
    simp only [hform, hname, if_pos ((any_isIndexer_iff h _).mpr hsecond)]
    rfl

/-- What cannot be added is refused by the declaration. -/
lemma refuses_of_add (h : ofDecl decl parent c = .ok draft) (hadd : draft.add m = .error cause) :
    decl.Refuses m cause := by
  have hname := name_of_ofDecl h
  have hfree := ensureFree_eq h
  unfold add at hadd
  cases hform : m.form with
  | field | method =>
    simp only [hform, hname, hfree] at hadd
    split at hadd
    next hkey =>
      cases hadd
      exact .taken (by simp [MemberDecl.constructor?, hform]) (by simp [MemberDecl.isIndexer, hform]) hkey
    next => cases hadd
  | constructor f =>
    simp only [hform, hname, constructor_of_ofDecl h, Bool.or_eq_true] at hadd
    split at hadd
    next hsecond =>
      cases hadd
      exact .constructor hform hsecond
    next => cases hadd
  | indexer getter setter =>
    simp only [hform, hname] at hadd
    split at hadd
    next hany =>
      cases hadd
      exact .indexer hform ((any_isIndexer_iff h _).mp hany)
    next => cases hadd
  | property getter setter initializer =>
    simp only [hform, hname, hfree] at hadd
    split at hadd
    next hkey =>
      cases hadd
      exact .taken (by simp [MemberDecl.constructor?, hform]) (by simp [MemberDecl.isIndexer, hform]) hkey
    next hown =>
      -- The own key is free, so it is a matter of the hidden field.
      simp only [addHiddenField, hname, hfree] at hadd
      cases hauto : isAuto getter || isAuto setter with
      | true =>
        simp only [hauto, if_true] at hadd
        split at hadd
        next hkey =>
          cases hadd
          exact .hidden hform hauto hown hkey
        next => cases hadd
      | false =>
        cases initializer with
        | none =>
          simp only [hauto] at hadd
          cases hadd
        | some initializer =>
          simp only [hauto] at hadd
          cases hadd
          exact .initializer hform hauto hown

end Draft

end ScriptLang
