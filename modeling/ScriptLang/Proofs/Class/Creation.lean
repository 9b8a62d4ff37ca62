/-
What class creation makes of a declaration.

If a member is refused, there is no class.  Otherwise the class holds what was declared, with one exception.
An indexer takes the place of a member that stands under its key, and it goes beside a field.  This happens if
a member has the name that is reserved for indexers, and it is the only way in which something is lost
(`class_creation_loses_to_indexers_only`).  It can happen (`indexer_replaces_method`).
-/
import ScriptLang.Proofs.Class.Drafts

namespace ScriptLang

/-! ## Accepted declarations -/

namespace ClassDecl

/-- Something holds of a member and the declaration up to it. -/
def Somewhere (decl : ClassDecl) (P : ClassDecl → MemberDecl → Prop) : Prop :=
  ∃ done m rest, decl.members = done ++ m :: rest ∧ P (decl.upTo done) m

/-- No member is refused by the declaration up to it. -/
def Accepted (decl : ClassDecl) : Prop :=
  ¬decl.Somewhere fun before m => ∃ cause, before.Refuses m cause

/-- An indexer of one side has a key that an earlier member of this side has declared. -/
def IndexerTakes (decl : ClassDecl) (side : Side) : Prop :=
  decl.Somewhere fun before m => Side.ofStatic m.isStatic = side ∧ m.isIndexer = true ∧
    Class.key m.visibility before.name MemberDecl.indexerName ∈ before.keysOn side

variable {decl : ClassDecl} {m : MemberDecl} {parent : Option ClassId} {c : Context} {side : Side}

lemma not_somewhere_nil {P : ClassDecl → MemberDecl → Prop} : ¬(decl.upTo []).Somewhere P := by
  rintro ⟨done, m, rest, hsplit, -⟩
  exact absurd hsplit (by simp [upTo])

/-- A place among the members is the last one, or it is before that. -/
lemma somewhere_snoc {P : ClassDecl → MemberDecl → Prop} :
    (decl.snoc m).Somewhere P ↔ decl.Somewhere P ∨ P decl m := by
  constructor
  · rintro ⟨done, m', rest, hsplit, h⟩
    have hmembers : (decl.snoc m).members = decl.members ++ [m] := rfl
    rw [hmembers] at hsplit
    rcases rest.eq_nil_or_concat with rfl | ⟨rest, last, rfl⟩
    · obtain ⟨rfl, hlast⟩ := List.append_inj' hsplit rfl
      cases hlast
      exact .inr (decl.upTo_members ▸ h)
    · rw [List.concat_eq_append, ← List.cons_append, ← List.append_assoc] at hsplit
      exact .inl ⟨done, m', rest, (List.append_inj' hsplit rfl).1, h⟩
  · rintro (⟨done, m', rest, hsplit, h⟩ | h)
    · exact ⟨done, m', rest ++ [m], by simp [snoc, upTo, hsplit], h⟩
    · exact ⟨decl.members, m, [], rfl, decl.upTo_members.symm ▸ h⟩

lemma accepted_snoc : (decl.snoc m).Accepted ↔ decl.Accepted ∧ ∀ cause, ¬decl.Refuses m cause := by
  rw [Accepted, somewhere_snoc, not_or, not_exists]
  rfl

/-- An accepted declaration gives a class. -/
lemma exists_ofDecl_iff : (∃ draft, Draft.ofDecl decl parent c = .ok draft) ↔ decl.Accepted := by
  induction decl using snocRec with
  | empty decl => exact iff_of_true ⟨_, rfl⟩ not_somewhere_nil
  | snoc decl m ih =>
    rw [accepted_snoc, ← ih, Draft.ofDecl_snoc]
    constructor
    · rintro ⟨draft, hdraft⟩
      obtain ⟨d, hd, hadd⟩ := Draft.exists_ok_of_bind hdraft
      refine ⟨⟨d, hd⟩, fun cause hrefuses => ?_⟩
      rw [Draft.add_of_refuses hd hrefuses] at hadd
      cases hadd
    · rintro ⟨⟨d, hd⟩, hrefuses⟩
      cases hadd : d.add m with
      | ok draft => exact ⟨draft, by rw [hd]; exact hadd⟩
      | error cause => exact absurd (Draft.refuses_of_add hd hadd) (hrefuses cause)

/-- Of the members that are refused, one is the first. -/
lemma exists_refused (h : ¬decl.Accepted) : ∃ done m rest cause, decl.members = done ++ m :: rest ∧
    (decl.upTo done).Accepted ∧ (decl.upTo done).Refuses m cause := by
  induction decl using snocRec with
  | empty decl => exact absurd not_somewhere_nil h
  | snoc decl m ih =>
    by_cases hdecl : decl.Accepted
    · rw [accepted_snoc, and_iff_right hdecl] at h
      push Not at h
      obtain ⟨cause, hrefuses⟩ := h
      refine ⟨decl.members, m, [], cause, rfl, ?_, ?_⟩
      · exact decl.upTo_members.symm ▸ hdecl
      · exact decl.upTo_members.symm ▸ hrefuses
    · obtain ⟨done, m', rest, cause, hsplit, haccepted, hrefuses⟩ := ih hdecl
      exact ⟨done, m', rest ++ [m], cause, by simp [snoc, upTo, hsplit], haccepted, hrefuses⟩

/-! ## What is kept -/

/-- The class that a declaration gives, before the fields of the class itself get their initial values. -/
structure Made (decl : ClassDecl) (parent : Option ClassId) (c : Context) (cls : Class) : Prop where
  name : cls.name = decl.name
  parent : cls.parent = parent
  origin : cls.origin = .script c decl.constructor?
  constructors : decl.members.filterMap MemberDecl.constructor? = decl.constructor?.toList
  /-- Of two members with the same key the later one wins. -/
  members : ∀ side, cls.members side = .ofList (decl.entriesOn side)
  oneIndexer : ∀ side key key' member member', (cls.members side).get? key = some member →
    (cls.members side).get? key' = some member' → member.isIndexer = true → member'.isIndexer = true →
    key = key'
  instanceFields : cls.instanceFields = decl.slotsOn .ofInstance
  staticFields : cls.staticFields = .ofList ((decl.slotsOn .ofClass).map fun f => (f.key, .null))

/-- The members of one side of the class are those that are declared, and none of them has the key of a
field. -/
structure KeptOn (decl : ClassDecl) (side : Side) (cls : Class) : Prop where
  members : ∀ key member, (cls.members side).get? key = some member ↔ (key, member) ∈ decl.entriesOn side
  apart : ∀ key, (cls.members side).contains key = true → cls.hasField side key = false

variable {cls : Class} {key : String}

lemma Refuses.of_isIndexer (h : m.isIndexer = true) (hdecl : decl.HasIndexer (.ofStatic m.isStatic)) :
    decl.Refuses m (.duplicateIndexer decl.name) := by
  obtain ⟨getter, setter, hform⟩ := m.form_of_isIndexer h
  exact .indexer hform hdecl

lemma hasIndexer_of_mem {entry : String × Member} (h : entry ∈ decl.entriesOn side)
    (hentry : entry.2.isIndexer = true) : decl.HasIndexer side := by
  simp only [entriesOn, listed, List.mem_flatMap, List.mem_filter, decide_eq_true_eq] at h
  obtain ⟨m, ⟨hm, hside⟩, hmem⟩ := h
  refine ⟨m, hm, hside, ?_⟩
  rcases m.entries_cases decl.name with ⟨hnone, -⟩ | ⟨entry', hone, hindexer⟩
  · rw [hnone] at hmem
    cases hmem
  · rw [hone, List.mem_singleton] at hmem
    rw [← hindexer, ← hmem, hentry]

/-- A side declares at most one indexer. -/
lemma Accepted.indexer_unique (h : decl.Accepted) {entry entry' : String × Member}
    (hentry : entry ∈ decl.entriesOn side) (hentry' : entry' ∈ decl.entriesOn side)
    (hindexer : entry.2.isIndexer = true) (hindexer' : entry'.2.isIndexer = true) : entry = entry' := by
  induction decl using snocRec with
  | empty decl => cases hentry
  | snoc decl m ih =>
    rw [accepted_snoc] at h
    rw [entriesOn_snoc, List.mem_append] at hentry hentry'
    by_cases hside : Side.ofStatic m.isStatic = side
    · subst hside
      rw [if_pos rfl] at hentry hentry'
      rcases m.entries_cases decl.name with ⟨hnone, -⟩ | ⟨last, hone, hlast⟩
      · simp only [hnone, List.not_mem_nil, or_false] at hentry hentry'
        exact ih h.1 hentry hentry'
      · simp only [hone, List.mem_singleton] at hentry hentry'
        -- If the last member is an indexer, there was none before.
        have hbefore : ∀ e ∈ decl.entriesOn (.ofStatic m.isStatic), e.2.isIndexer = true →
            last.2.isIndexer = false := by
          intro e he hindexer
          rw [← Bool.not_eq_true, hlast]
          exact fun hm => h.2 _ (.of_isIndexer hm (hasIndexer_of_mem he hindexer))
        rcases hentry with hentry | rfl <;> rcases hentry' with hentry' | rfl
        · exact ih h.1 hentry hentry'
        · exact absurd (hbefore _ hentry hindexer) (by simp [hindexer'])
        · exact absurd (hbefore _ hentry' hindexer') (by simp [hindexer])
        · rfl
    · simp only [if_neg hside, List.not_mem_nil, or_false] at hentry hentry'
      exact ih h.1 hentry hentry'

/-- There is at most one constructor. -/
lemma Accepted.constructors (h : decl.Accepted) :
    decl.members.filterMap MemberDecl.constructor? = decl.constructor?.toList := by
  induction decl using snocRec with
  | empty decl => rfl
  | snoc decl m ih =>
    rw [accepted_snoc] at h
    have hsnoc : (decl.snoc m).members.filterMap MemberDecl.constructor? =
        decl.members.filterMap MemberDecl.constructor? ++ m.constructor?.toList := by
      cases hm : m.constructor? <;> simp [snoc, upTo, hm]
    rw [constructor?, hsnoc, ih h.1]
    cases hm : m.constructor? with
    | none => cases decl.constructor? <;> rfl
    | some f =>
      have hnone : decl.constructor? = none := by
        cases hform : m.form with
        | constructor f =>
          rw [← Option.not_isSome_iff_eq_none]
          exact fun hsome => h.2 _ (.constructor hform (.inr hsome))
        | _ => simp [MemberDecl.constructor?, hform] at hm
      rw [hnone]
      rfl

lemma made_of_ofDecl {draft : Draft} (h : Draft.ofDecl decl parent c = .ok draft) :
    decl.Made parent c (draft.finish c) := by
  have haccepted : decl.Accepted := exists_ofDecl_iff.mp ⟨draft, h⟩
  have hmembers : ∀ side, (draft.finish c).members side = .ofList (decl.entriesOn side) := by
    intro side
    rw [← Draft.members_of_ofDecl h side]
    cases side <;> rfl
  refine ⟨Draft.name_of_ofDecl h, Draft.parent_of_ofDecl h, (Draft.finish_of_ofDecl h).1,
    haccepted.constructors, hmembers, fun side key key' member member' hkey hkey' hm hm' => ?_,
    (Draft.finish_of_ofDecl h).2.trans decl.fields_eq_slotsOn, (Draft.statics_of_ofDecl h).1⟩
  rw [hmembers] at hkey hkey'
  exact congrArg Prod.fst (haccepted.indexer_unique (Table.mem_of_get?_ofList hkey)
    (Table.mem_of_get?_ofList hkey') hm hm')

lemma Made.hasField_iff (h : decl.Made parent c cls) :
    cls.hasField side key = true ↔ key ∈ (decl.slotsOn side).map (·.key) := by
  cases side with
  | ofInstance => simp [Class.hasField, h.instanceFields]
  | ofClass =>
    rw [Class.hasField, h.staticFields, Table.contains_ofList_iff, List.map_map]
    rfl

end ClassDecl

lemma Class.key_ne_hidden (v : Visibility) (className name : String) :
    key v className name ≠ key .isPrivate className (hiddenName name) := by
  intro h
  have hlength := congrArg (·.toList.length) h
  cases v <;> simp [key, hiddenName] at hlength <;> omega

namespace ClassDecl

variable {decl : ClassDecl} {m : MemberDecl} {parent : Option ClassId} {c : Context} {side : Side}
  {cls : Class}

/-- A member that is not refused declares new keys, if it is no indexer with a key that is taken. -/
lemma fresh_of_not_refuses (h : ∀ cause, ¬decl.Refuses m cause)
    (hindexer : m.isIndexer = true →
      Class.key m.visibility decl.name MemberDecl.indexerName ∉ decl.keysOn (.ofStatic m.isStatic)) :
    (m.keys decl.name).Nodup ∧ ∀ key ∈ m.keys decl.name, key ∉ decl.keysOn (.ofStatic m.isStatic) := by
  have hown : m.constructor? = none → m.isIndexer = false →
      Class.key m.visibility decl.name m.name ∉ decl.keysOn (.ofStatic m.isStatic) :=
    fun hctor hm hkey => h _ (.taken hctor hm hkey)
  cases hform : m.form with
  | constructor => simp [MemberDecl.keys, MemberDecl.declared, hform]
  | indexer =>
    have hkey := hindexer (by simp [MemberDecl.isIndexer, hform])
    simpa [MemberDecl.keys, MemberDecl.declared, hform] using hkey
  | field | method =>
    have hkey := hown (by simp [MemberDecl.constructor?, hform]) (by simp [MemberDecl.isIndexer, hform])
    simpa [MemberDecl.keys, MemberDecl.declared, hform] using hkey
  | property getter setter initializer =>
    have hkey := hown (by simp [MemberDecl.constructor?, hform]) (by simp [MemberDecl.isIndexer, hform])
    cases hauto : Draft.isAuto getter || Draft.isAuto setter with
    | false => simpa [MemberDecl.keys, MemberDecl.declared, hform, hauto] using hkey
    | true =>
      have hhidden : Class.key .isPrivate decl.name (Class.hiddenName m.name) ∉
          decl.keysOn (.ofStatic m.isStatic) := fun hmem => h _ (.hidden hform hauto hkey hmem)
      have hne := Class.key_ne_hidden m.visibility decl.name m.name
      simp [MemberDecl.keys, MemberDecl.declared, hform, hauto, hkey, hhidden, hne]

/-- If no indexer takes a key, the keys of a side are different. -/
lemma Accepted.nodup_keysOn (h : decl.Accepted) (hside : ¬decl.IndexerTakes side) :
    (decl.keysOn side).Nodup := by
  induction decl using snocRec with
  | empty decl => exact List.nodup_nil
  | snoc decl m ih =>
    rw [accepted_snoc] at h
    rw [IndexerTakes, somewhere_snoc, not_or] at hside
    rw [keysOn_snoc]
    by_cases hm : Side.ofStatic m.isStatic = side
    · subst hm
      obtain ⟨hnodup, hfresh⟩ := fresh_of_not_refuses h.2
        fun hindexer hkey => hside.2 ⟨rfl, hindexer, hkey⟩
      rw [if_pos rfl, List.nodup_append]
      refine ⟨ih h.1 hside.1, hnodup, ?_⟩
      rintro key hkey _ hkey' rfl
      exact hfresh key hkey' hkey
    · rw [if_neg hm, List.append_nil]
      exact ih h.1 hside.1

lemma mem_listed_of_upTo {α : Type} {f : MemberDecl → List α} {a : α} {done rest : List MemberDecl}
    (hsplit : decl.members = done ++ rest) (h : a ∈ (decl.upTo done).listed side f) :
    a ∈ decl.listed side f := by
  rw [listed, hsplit, List.filter_append, List.flatMap_append]
  exact List.mem_append_left _ h

/-- If the keys of a side are different, no indexer takes one. -/
lemma IndexerTakes.not_nodup (h : decl.IndexerTakes side) : ¬(decl.keysOn side).Nodup := by
  obtain ⟨done, m, rest, hsplit, hside, hindexer, hkey⟩ := h
  intro hnodup
  rw [keysOn, listed, hsplit, List.filter_append, List.flatMap_append, List.nodup_append] at hnodup
  refine hnodup.2.2 _ hkey _ (List.mem_flatMap.mpr ⟨m, by simp [hside], ?_⟩) rfl
  obtain ⟨getter, setter, hform⟩ := m.form_of_isIndexer hindexer
  simp [MemberDecl.keys, MemberDecl.declared, hform, upTo]

/-- The class has the members that are declared on a side, and apart from its fields, unless an indexer of this
side takes a key. -/
lemma Made.keptOn_iff (hmade : decl.Made parent c cls) (h : decl.Accepted) :
    decl.KeptOn side cls ↔ ¬decl.IndexerTakes side := by
  constructor
  · -- The key was declared by a member or as a field, and neither goes with what is kept.
    rintro hkept ⟨done, m, rest, hsplit, rfl, hindexer, hkey⟩
    obtain ⟨getter, setter, hform⟩ := m.form_of_isIndexer hindexer
    have hlisted : (Class.key m.visibility decl.name MemberDecl.indexerName,
        Member.indexer (getter.map .script) (setter.map .script)) ∈ decl.entriesOn (.ofStatic m.isStatic) := by
      refine List.mem_flatMap.mpr ⟨m, List.mem_filter.mpr ⟨by simp [hsplit], by simp⟩, ?_⟩
      simp [MemberDecl.entries, hform]
    have hget := (hkept.members _ _).mpr hlisted
    rcases List.mem_append.mp (((decl.upTo done).keysOn_perm _).mem_iff.mp hkey) with hmember | hfield
    · -- An earlier member with this key would be the indexer, but there is no earlier indexer.
      obtain ⟨⟨_, member⟩, hearlier, rfl⟩ := List.mem_map.mp hmember
      have hsame := (hkept.members _ _).mpr (mem_listed_of_upTo hsplit hearlier)
      cases hget.symm.trans hsame
      exact h ⟨done, m, rest, hsplit, _, .indexer hform (hasIndexer_of_mem hearlier rfl)⟩
    · obtain ⟨field, hearlier, hkey⟩ := List.mem_map.mp hfield
      have hfield := hmade.hasField_iff.mpr
        (List.mem_map.mpr ⟨field, mem_listed_of_upTo hsplit hearlier, hkey⟩)
      have hnone := hkept.apart (Class.key m.visibility decl.name MemberDecl.indexerName)
        (by rw [Table.contains, hget]; rfl)
      exact absurd (hfield.symm.trans hnone) (by decide)
  · intro hside
    have hnodup := ((decl.keysOn_perm side).nodup_iff).mp (h.nodup_keysOn hside)
    rw [List.nodup_append] at hnodup
    obtain ⟨hentries, -, hapart⟩ := hnodup
    refine ⟨fun key member => ?_, fun key hkey => ?_⟩
    · rw [hmade.members]
      exact ⟨Table.mem_of_get?_ofList, fun hmem => Table.get?_ofList_of_mem hmem hentries⟩
    · rw [hmade.members, Table.contains_ofList_iff] at hkey
      rw [← Bool.not_eq_true, hmade.hasField_iff]
      exact fun hfield => hapart key hkey key hfield rfl

end ClassDecl

/-! ## Creation -/

namespace Evaluator

variable {c : Context} {decl : ClassDecl} {parent : Option ClassId} {draft : Draft} {s s₁ : State}

lemma addMembers_append (d : Draft) (ms rest : List MemberDecl) :
    addMembers d (ms ++ rest) = addMembers d ms >>= fun d' => addMembers d' rest := by
  induction ms generalizing d with
  | nil => rfl
  | cons m ms ih =>
    rw [List.cons_append, addMembers, addMembers, bind_assoc]
    exact bind_congr fun d' => ih d'

lemma run_addMembers {d : Draft} {ms : List MemberDecl} (h : ms.foldlM Draft.add d = .ok draft) (s : State) :
    (addMembers d ms).run s = .ok draft s := by
  induction ms generalizing d with
  | nil =>
    cases h
    rfl
  | cons m ms ih =>
    obtain ⟨d', hadd, hrest⟩ := Draft.exists_ok_of_bind h
    have hfirst : (Exec.located m.place (Exec.ofExcept (d.add m))).run s = .ok d' s := by
      rw [hadd]
      rfl
    exact (run_bind_ok hfirst).trans (ih hrest)

/-- Adding members ends at the first one that is refused. -/
lemma run_addMembers_of_refuses {done rest : List MemberDecl} {m : MemberDecl} {cause : Cause}
    (h : Draft.ofDecl (decl.upTo done) parent c = .ok draft) (hrefuses : (decl.upTo done).Refuses m cause)
    (s : State) :
    (addMembers (.start decl parent c) (done ++ m :: rest)).run s =
      .error (.fault ⟨cause, some m.place⟩) s := by
  have hdone : (addMembers (.start decl parent c) done).run s = .ok draft s := run_addMembers h s
  rw [addMembers_append, run_bind_ok hdone, ← Fault.locate_bare hrefuses.ne_cancelled]
  refine run_bind_error ?_
  rw [Draft.add_of_refuses h hrefuses]
  rfl

variable (self : Evaluator)

/-- Gives fields of a class that is registered their initial values. -/
def setStatics (context : Context) (id : ClassId) (entries : List (String × Expr)) : Exec Unit :=
  entries.forM fun (key, e) => do
    let value ← self.evaluate context e
    Exec.setStaticField id key value

/-- What is left to do for a class that is registered: its own fields get their initial values, in the order
of the declaration. -/
def completeClass (c : Context) (id : ClassId) (fields : List Field) : Exec ClassId := do
  let context ← Exec.newMethodContext c id none
  self.setStatics context id (fields.filterMap Field.initial?)
  return id

variable {self}

lemma run_createClass_of_ok (hparent : (self.parentOf c decl.parent).run s = .ok parent s₁)
    (h : Draft.ofDecl decl parent c = .ok draft) :
    (self.createClass c decl).run s =
      (self.completeClass c ⟨s₁.registry.size⟩ (decl.slotsOn .ofClass)).run
        (s₁.withRegistry (s₁.registry.insert (draft.finish c)).2) := by
  have hmembers : (addMembers (.start decl parent c) decl.members).run s₁ = .ok draft s₁ :=
    run_addMembers h s₁
  have hregister : (Exec.register (draft.finish c)).run s₁ =
      .ok ⟨s₁.registry.size⟩ (s₁.withRegistry (s₁.registry.insert (draft.finish c)).2) := rfl
  rw [completeClass, ← (Draft.statics_of_ofDecl h).2]
  exact (run_bind_ok hparent).trans ((run_bind_ok hmembers).trans (run_bind_ok hregister))

lemma run_createClass_of_refuses (hparent : (self.parentOf c decl.parent).run s = .ok parent s₁)
    {done rest : List MemberDecl} {m : MemberDecl} {cause : Cause}
    (hsplit : decl.members = done ++ m :: rest) (haccepted : (decl.upTo done).Accepted)
    (hrefuses : (decl.upTo done).Refuses m cause) :
    (self.createClass c decl).run s = .error (.fault ⟨cause, some m.place⟩) s₁ := by
  obtain ⟨draft, h⟩ := ClassDecl.exists_ofDecl_iff.mpr haccepted
  have hmembers : (addMembers (.start decl parent c) decl.members).run s₁ =
      .error (.fault ⟨cause, some m.place⟩) s₁ := by
    rw [hsplit, run_addMembers_of_refuses h hrefuses]
  exact (run_bind_ok hparent).trans (run_bind_error hmembers)

lemma grows_after (n : Nat) (t : Task) (s : State) : s.Grows (((within n).perform t).after s) :=
  Regime.growing.near_after ((within_heeds .growing n).perform t s trivial trivial)

/-- Fields that are there get other values. -/
lemma grows_setStatics (n : Nat) (context : Context) {id : ClassId} {cls : Class}
    {entries : List (String × Expr)} (hcls : s.registry.get? id = some cls)
    (hentries : ∀ entry ∈ entries, cls.staticFields.contains entry.1 = true) :
    s.Grows (((within n).setStatics context id entries).after s) := by
  induction entries generalizing s cls with
  | nil => exact .refl s
  | cons entry entries ih =>
    rw [List.forall_mem_cons] at hentries
    have hvalue := grows_after n (.evaluate context entry.2) s
    cases hrun : ((within n).perform (.evaluate context entry.2)).run s with
    | error halt s' =>
      rw [Exec.after_of_error hrun] at hvalue
      exact (Exec.after_bind_of_error (run_bind_error hrun)).symm ▸ hvalue
    | ok value s' =>
      rw [Exec.after_of_ok hrun] at hvalue
      -- Whatever the initial value did, the class still has the field.
      obtain ⟨cls', hcls', hrevised⟩ := hvalue.cls hcls
      have hset := State.Grows.setStaticField value hcls' ((hrevised.keys entry.1).trans hentries.1)
      obtain ⟨cls'', hcls'', hrevised'⟩ := hset.cls hcls'
      have hkeys : ∀ e ∈ entries, cls''.staticFields.contains e.1 = true := by
        intro e he
        rw [(hrevised.trans hrevised').keys e.1]
        exact hentries.2 e he
      have hfirst : (do
          let value ← (within n).evaluate context entry.2
          Exec.setStaticField id entry.1 value : Exec Unit).run s =
            .ok () (s'.withRegistry (s'.registry.modify id (·.setField entry.1 value))) :=
        run_bind_ok hrun
      exact (Exec.after_bind_of_ok hfirst).symm ▸ (hvalue.trans hset).trans (ih hcls'' hkeys)

lemma grows_completeClass (n : Nat) {id : ClassId} {cls : Class} {fields : List Field}
    (hcls : s.registry.get? id = some cls)
    (hfields : ∀ f ∈ fields, cls.staticFields.contains f.key = true) :
    s.Grows (((within n).completeClass c id fields).after s) := by
  have hentries : ∀ entry ∈ fields.filterMap Field.initial?,
      cls.staticFields.contains entry.1 = true := by
    intro entry hentry
    obtain ⟨f, hf, hinitial⟩ := List.mem_filterMap.mp hentry
    obtain ⟨e, -, rfl⟩ := Option.map_eq_some_iff.mp hinitial
    exact hfields f hf
  have hopened : s.opened.registry.get? id = some cls := hcls
  have hstatics := grows_setStatics n (.method ⟨s.scopes.size⟩ c id none) hopened hentries
  have hcontext : (Exec.newMethodContext c id none).run s =
      .ok (.method ⟨s.scopes.size⟩ c id none) s.opened := rfl
  rw [completeClass, Exec.after_bind_of_ok hcontext, Exec.after_bind_pure]
  exact (State.Grows.opened s).trans hstatics

end Evaluator

/-- **A class loses members to indexers, and to nothing else.**  Suppose that what a declaration extends is
known.  If a member is refused, creation fails at the first such member, at its place, and there is no new
class.  Otherwise there is a class with the constructor, the fields and the members that are declared, and
nothing else can happen to it than that its own fields get values.  On each side it has all the members, none of
which has the key of a field, unless an indexer has a key that was declared on this side before it; then it
has not.  There is at most one indexer on each side in any case. -/
theorem class_creation_loses_to_indexers_only {n : Nat} {c : Context} {decl : ClassDecl}
    {parent : Option ClassId} {s s₁ : State}
    (hparent : ((Evaluator.within n).parentOf c decl.parent).run s = .ok parent s₁) :
    let creation := (Evaluator.within n).createClass c decl
    let id : ClassId := ⟨s₁.registry.size⟩
    (decl.Accepted → ∃ cls, decl.Made parent c cls ∧
      (∀ side, decl.KeptOn side cls ↔ ¬decl.IndexerTakes side) ∧
      creation.run s = ((Evaluator.within n).completeClass c id (decl.slotsOn .ofClass)).run
        (s₁.withRegistry (s₁.registry.insert cls).2) ∧
      ∃ cls', (creation.after s).registry.get? id = some cls' ∧ cls.Revised cls') ∧
    (¬decl.Accepted → ∃ done m rest cause, decl.members = done ++ m :: rest ∧
      (decl.upTo done).Accepted ∧ (decl.upTo done).Refuses m cause ∧
      creation.run s = .error (.fault ⟨cause, some m.place⟩) s₁) := by
  intro creation id
  refine ⟨fun haccepted => ?_, fun hrefused => ?_⟩
  · obtain ⟨draft, hdraft⟩ := ClassDecl.exists_ofDecl_iff.mpr haccepted
    have hmade := ClassDecl.made_of_ofDecl hdraft
    have hrun := Evaluator.run_createClass_of_ok hparent hdraft
    refine ⟨draft.finish c, hmade, fun side => hmade.keptOn_iff haccepted, hrun, ?_⟩
    have hregistered : (s₁.withRegistry (s₁.registry.insert (draft.finish c)).2).registry.get? id =
        some (draft.finish c) := (Registry.get?_insert _ _ _).trans (if_pos rfl)
    have hfields : ∀ f ∈ decl.slotsOn .ofClass, (draft.finish c).hasField .ofClass f.key = true :=
      fun f hf => hmade.hasField_iff.mpr (List.mem_map_of_mem hf)
    rw [Exec.after_congr hrun]
    exact (Evaluator.grows_completeClass n hregistered hfields).cls hregistered
  · obtain ⟨done, m, rest, cause, hsplit, haccepted, hrefuses⟩ := ClassDecl.exists_refused hrefused
    exact ⟨done, m, rest, cause, hsplit, haccepted, hrefuses,
      Evaluator.run_createClass_of_refuses hparent hsplit haccepted hrefuses⟩

/-- A class with a property that has a hidden field, an indexer, a field of its own and a constructor. -/
def shelfDecl : ClassDecl :=
  ⟨"Shelf", none,
    [⟨"size", .isPrivate, false, .property (some .auto) none (some ⟨⟨2, 20⟩, .literal (.boolean true)⟩), ⟨2, 3⟩⟩,
      ⟨"[]", .isPublic, false, .indexer (some ⟨some "[]", [], [], ⟨3, 3⟩⟩) none, ⟨3, 3⟩⟩,
      ⟨"count", .isPublic, true, .field (some ⟨⟨4, 18⟩, .literal (.boolean false)⟩), ⟨4, 3⟩⟩,
      ⟨"Shelf", .isPublic, false, .constructor ⟨some "Shelf", [], [], ⟨5, 3⟩⟩, ⟨5, 3⟩⟩], ⟨1, 1⟩⟩

lemma accepted_shelfDecl : shelfDecl.Accepted := by
  have hdraft : ∃ draft, Draft.ofDecl shelfDecl none Interpreter.root = .ok draft := ⟨_, rfl⟩
  exact ClassDecl.exists_ofDecl_iff.mp hdraft

lemma not_indexerTakes_shelfDecl (side : Side) : ¬shelfDecl.IndexerTakes side := by
  refine fun h => h.not_nodup ?_
  cases side <;> decide +kernel

/-- The class has all its members.  With a second indexer there is no class. -/
theorem class_creation_loses_to_indexers_only_shelf :
    (∃ cls s', (∀ side, shelfDecl.KeptOn side cls) ∧
      ((Evaluator.within 2).createClass Interpreter.root shelfDecl).run plainState = .ok ⟨0⟩ s' ∧
      ∃ cls', s'.registry.get? ⟨0⟩ = some cls' ∧ cls.Revised cls') ∧
    ∃ m cause, ((Evaluator.within 2).createClass Interpreter.root (shelfDecl.snoc
        ⟨"[]", .isProtected, false, .indexer none none, ⟨6, 3⟩⟩)).run plainState =
      .error (.fault ⟨cause, some (MemberDecl.place m)⟩) plainState := by
  have hparent : ∀ decl : ClassDecl, decl.parent = none →
      ((Evaluator.within 2).parentOf Interpreter.root decl.parent).run plainState = .ok none plainState := by
    intro decl hdecl
    rw [hdecl]
    rfl
  constructor
  · obtain ⟨haccepted, -⟩ := class_creation_loses_to_indexers_only (hparent shelfDecl rfl)
    obtain ⟨cls, -, hkept, -, cls', hcls', hrevised⟩ := haccepted accepted_shelfDecl
    obtain ⟨s', hrun⟩ : ∃ s', ((Evaluator.within 2).createClass Interpreter.root shelfDecl).run plainState =
        .ok ⟨0⟩ s' := ⟨_, rfl⟩
    rw [Exec.after_of_ok hrun] at hcls'
    exact ⟨cls, s', fun side => (hkept side).mpr (not_indexerTakes_shelfDecl side), hrun, cls', hcls', hrevised⟩
  · have hrefused : ¬(shelfDecl.snoc ⟨"[]", .isProtected, false, .indexer none none, ⟨6, 3⟩⟩).Accepted :=
      fun h => (ClassDecl.accepted_snoc.mp h).2 _ (.indexer rfl ⟨_, .tail _ (.head _), rfl, rfl⟩)
    obtain ⟨-, hfails⟩ := class_creation_loses_to_indexers_only (hparent (shelfDecl.snoc _) rfl)
    obtain ⟨-, m, -, cause, -, -, -, hrun⟩ := hfails hrefused
    exact ⟨m, cause, hrun⟩

/-- A class with a method that has the name of indexers, and an indexer. -/
def overloadedDecl : ClassDecl :=
  ⟨"A", none,
    [⟨"[]", .isPublic, false, .method ⟨some "[]", [], [], ⟨2, 3⟩⟩, ⟨2, 3⟩⟩,
      ⟨"[]", .isPublic, false, .indexer (some ⟨some "[]", [.ofName "i"], [], ⟨3, 3⟩⟩) none, ⟨3, 3⟩⟩],
    ⟨1, 1⟩⟩

/-- The indexer takes the place of the method. -/
theorem indexer_replaces_method :
    ("[]", Member.method (.script ⟨some "[]", [], [], ⟨2, 3⟩⟩)) ∈ overloadedDecl.entriesOn .ofInstance ∧
    ∃ s' cls, ((Evaluator.within 1).createClass Interpreter.root overloadedDecl).run plainState =
        .ok ⟨0⟩ s' ∧
      s'.registry.get? ⟨0⟩ = some cls ∧
      (cls.members .ofInstance).entries =
        [("[]", .indexer (some (.script ⟨some "[]", [.ofName "i"], [], ⟨3, 3⟩⟩)) none)] :=
  ⟨List.mem_cons_self, _, _, rfl, rfl, rfl⟩

end ScriptLang
