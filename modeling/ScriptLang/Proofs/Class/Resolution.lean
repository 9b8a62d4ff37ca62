/-
Looking for a member finds the most derived declaration that can be seen.

From a class upward, code sees public declarations, protected ones of classes that are related to its own,
and private ones of classes with the name of its own.  What is found is declared by the first class that
declares the name so that the code sees it, and within this class a private declaration goes before a
public one and a public one before a protected one (`resolve_finds_most_derived`).

Looking goes through keys, of which there are up to three for each class.  What stands under a key is what
was declared with its visibility, by the results about names.
-/
import ScriptLang.Proofs.Class.Ascent
import ScriptLang.Proofs.Class.Declared
import ScriptLang.Proofs.Eval.Surface

namespace ScriptLang

/-- The place of a visibility when several declarations of one class are seen. -/
def Visibility.rank : Visibility → Nat
  | .isPrivate => 0
  | .isPublic => 1
  | .isProtected => 2

namespace Registry

/-- Each registered class comes from its source, and all names are proper ones. -/
def DeclaredBy (r : Registry) (sources : ClassId → ClassSource) : Prop :=
  ∀ id cls, r.get? id = some cls → (sources id).Describes cls ∧ (sources id).Named

/-- Code of the class `caller`, or code outside of classes, sees what the class `id` declares with a
visibility. -/
def Visible (r : Registry) (caller : Option ClassId) (id : ClassId) : Visibility → Prop
  | .isPublic => True
  | .isProtected => ∃ k ∈ caller, r.Above k id ∨ r.Above id k
  | .isPrivate => ∃ k ∈ caller, (r.get? k).map (·.name) = (r.get? id).map (·.name)

variable (r : Registry) (sources : ClassId → ClassSource) (caller : Option ClassId) (side : Side)
  (name : String)

/-- A class declares a name with a visibility, and the code sees it. -/
def Offers (id : ClassId) (v : Visibility) : Prop :=
  (sources id).Declares side v name ∧ r.Visible caller id v

/-- What looking for a name from a class upward should find. -/
structure Picks (start : ClassId) (found : Found) (v : Visibility) : Prop where
  above : r.Above start found.owner
  offers : r.Offers sources caller side name found.owner v
  /-- Nothing that is seen further down is passed over. -/
  hides : ∀ id v', r.Above start id → r.Offers sources caller side name id v' → r.Above found.owner id
  first : ∀ v', r.Offers sources caller side name found.owner v' → v.rank ≤ v'.rank
  stands : ∃ cls, r.get? found.owner = some cls ∧ found.StandsIn cls side (Class.key v cls.name name)

/-! ## Keys in the order in which they are tried -/

/-- The visibilities with which code sees the names of a class, in the order in which they are tried. -/
def visibilities (id : ClassId) : List Visibility :=
  match caller with
  | none => [.isPublic]
  | some k => [.isPrivate, .isPublic] ++ if r.isRelated k id = some true then [.isProtected] else []

variable {r sources side name} {caller : Option (ClassId × String)} {id start : ClassId} {cls : Class}
  {v : Visibility} {found : Found}

lemma visibleKeys_eq : r.visibleKeys caller name id =
    (r.visibilities (caller.map (·.1)) id).map (Class.key · ((caller.map (·.2)).getD "") name) := by
  cases caller with
  | none => rfl
  | some p =>
    simp only [visibleKeys, visibilities, Option.map_some]
    split <;> rfl

lemma pairwise_visibilities (caller : Option ClassId) (id : ClassId) :
    (r.visibilities caller id).Pairwise (·.rank < ·.rank) := by
  cases caller with
  | none => exact List.pairwise_singleton _ _
  | some k =>
    simp only [visibilities]
    split <;> simp [Visibility.rank]

lemma mem_visibilities_iff {caller : Option ClassId} : v ∈ r.visibilities caller id ↔
    match v with
    | .isPublic => True
    | .isProtected => ∃ k ∈ caller, r.isRelated k id = some true
    | .isPrivate => caller.isSome := by
  cases caller with
  | none => cases v <;> simp [visibilities]
  | some k =>
    simp only [visibilities]
    split
    next h => cases v <;> simp [h]
    next h => cases v <;> simp [h]

/-! ## What stands in one class -/

lemma Found.inClass?_eq_none_iff {keys : List String} :
    Found.inClass? id cls side keys = none ↔ ∀ key ∈ keys, ¬cls.Holds side key := by
  rw [Found.inClass?, List.findSome?_eq_none_iff]
  refine forall₂_congr fun key _ => ?_
  rw [Class.Holds, Table.contains]
  cases (cls.members side).get? key <;> simp

/-- What is found in a class stands under the first of the keys that the class has. -/
lemma Found.exists_of_inClass? {keys : List String} (h : Found.inClass? id cls side keys = some found) :
    ∃ pre key post, keys = pre ++ key :: post ∧ (∀ k ∈ pre, ¬cls.Holds side k) ∧ found.owner = id ∧
      found.StandsIn cls side key := by
  obtain ⟨pre, key, post, hkeys, hkey, hpre⟩ := List.findSome?_eq_some_iff.mp h
  refine ⟨pre, key, post, hkeys, ?_, ?_⟩
  · exact inClass?_eq_none_iff.mp (List.findSome?_eq_none_iff.mpr hpre)
  · split at hkey
    next m hm =>
      cases hkey
      exact ⟨rfl, hm⟩
    next =>
      split at hkey
      next hfield =>
        cases hkey
        exact ⟨rfl, rfl, hfield⟩
      next => cases hkey

lemma Found.StandsIn.holds {key : String} (h : found.StandsIn cls side key) : cls.Holds side key := by
  cases found with
  | field => exact .inr h.2
  | member => exact .inl (by simp [Table.contains, show _ = _ from h])

section Held

variable (hr : r.Ordered) (hsources : r.DeclaredBy sources) (hname : Class.IsName name)
  (hcaller : ∀ p ∈ caller, ∃ cls, r.get? p.1 = some cls ∧ cls.name = p.2) (hcls : r.get? id = some cls)

include hr hsources hname hcaller hcls

/-- A class offers a name with a visibility if this is one of those that are tried and the class holds
something under its key. -/
lemma offers_iff : r.Offers sources (caller.map (·.1)) side name id v ↔
    v ∈ r.visibilities (caller.map (·.1)) id ∧
      cls.Holds side (Class.key v ((caller.map (·.2)).getD "") name) := by
  obtain ⟨hdescribes, hnamed⟩ := hsources id cls hcls
  have hcolon : ':' ∉ ((caller.map (·.2)).getD "").toList := by
    cases caller with
    | none => simp
    | some p =>
      obtain ⟨callerCls, hget, hp⟩ := hcaller p rfl
      obtain ⟨hcallerDescribes, hcallerNamed⟩ := hsources p.1 callerCls hget
      rw [Option.map_some, Option.getD_some, ← hp, hcallerDescribes.name_eq]
      exact hcallerNamed.name.colon_not_mem
  rw [hdescribes.holds_key_iff hnamed hname hcolon, mem_visibilities_iff, Offers]
  cases v with
  | isPublic => simp [Visible]
  | isProtected =>
    have hrelated : r.Visible (caller.map (·.1)) id .isProtected ↔
        ∃ k ∈ caller.map (·.1), r.isRelated k id = some true := by
      refine exists_congr fun k => and_congr_right fun _ => ?_
      exact (isRelated_eq_true (hr.ends k)).symm
    rw [hrelated]
    simp [and_comm]
  | isPrivate =>
    cases caller with
    | none => simp [Visible]
    | some p =>
      obtain ⟨callerCls, hget, hp⟩ := hcaller p rfl
      simp [Visible, hget, hcls, hp, and_comm]

omit hr hsources hname in
/-- What code sees as private carries the name of the class. -/
lemma key_of_visible (h : r.Visible (caller.map (·.1)) id v) :
    Class.key v ((caller.map (·.2)).getD "") name = Class.key v cls.name name := by
  cases v with
  | isPublic | isProtected => rfl
  | isPrivate =>
    obtain ⟨k, hk, hnames⟩ := h
    obtain ⟨p, hp, rfl⟩ := Option.map_eq_some_iff.mp hk
    obtain ⟨callerCls, hget, hcallerName⟩ := hcaller p hp
    rw [hget, hcls, Option.map_some, Option.map_some, hcallerName] at hnames
    rw [hp, Option.map_some, Option.getD_some, Option.some.inj hnames]

/-- A class has nothing for the code if it offers nothing. -/
lemma held_eq_none_iff : r.held caller side name id = none ↔
    ∀ v, ¬r.Offers sources (caller.map (·.1)) side name id v := by
  rw [held, hcls, Option.bind_some, Found.inClass?_eq_none_iff, visibleKeys_eq, List.forall_mem_map]
  refine forall_congr' fun v => ?_
  rw [offers_iff hr hsources hname hcaller hcls, not_and]

/-- What a class has for the code is what it offers with the first visibility. -/
lemma exists_of_held (h : r.held caller side name id = some found) : ∃ v, found.owner = id ∧
    r.Offers sources (caller.map (·.1)) side name id v ∧
    (∀ v', r.Offers sources (caller.map (·.1)) side name id v' → v.rank ≤ v'.rank) ∧
    found.StandsIn cls side (Class.key v cls.name name) := by
  have hoffers : ∀ v, r.Offers sources (caller.map (·.1)) side name id v ↔ _ :=
    fun v => offers_iff hr hsources hname hcaller hcls
  rw [held, hcls, Option.bind_some] at h
  obtain ⟨pre, key, post, hkeys, hpre, howner, hstands⟩ := Found.exists_of_inClass? h
  rw [visibleKeys_eq] at hkeys
  obtain ⟨before, rest, hsplit, rfl, hrest⟩ := List.map_eq_append_iff.mp hkeys
  obtain ⟨v, after, rfl, rfl, -⟩ := List.map_eq_cons_iff.mp hrest
  have hv : r.Offers sources (caller.map (·.1)) side name id v :=
    (hoffers v).mpr ⟨by simp [hsplit], hstands.holds⟩
  refine ⟨v, howner, hv, fun v' hv' => ?_, key_of_visible hcaller hcls hv.2 ▸ hstands⟩
  obtain ⟨hmem, hholds⟩ := (hoffers v').mp hv'
  have hsorted := r.pairwise_visibilities (caller.map (·.1)) id
  rw [hsplit] at hmem hsorted
  rcases List.mem_append.mp hmem with hmem | hmem
  · exact absurd hholds (hpre _ (List.mem_map_of_mem hmem))
  · rcases List.mem_cons.mp hmem with rfl | hmem
    · exact Nat.le_refl _
    · have hlater := (List.pairwise_cons.mp (List.pairwise_append.mp hsorted).2.1).1
      exact Nat.le_of_lt (hlater v' hmem)

end Held

/-! ## Looking from a class upward -/

/-- Looking for a name comes to an end, and finds the most derived declaration that the code sees. -/
theorem exists_search (side : Side) (hr : r.Ordered) (hsources : r.DeclaredBy sources)
    (hname : Class.IsName name) (hcaller : ∀ p ∈ caller, ∃ cls, r.get? p.1 = some cls ∧ cls.name = p.2)
    (hstart : (r.get? start).isSome) : ∃ result, r.search caller side name start = .ofOption result ∧
      (result = none ↔ ∀ id v, r.Above start id →
        ¬r.Offers sources (caller.map (·.1)) side name id v) ∧
      ∀ found ∈ result, ∃ v, r.Picks sources (caller.map (·.1)) side name start found v := by
  obtain ⟨ids, hids⟩ := exists_climbs hr hstart
  have hclass : ∀ id ∈ ids, ∃ cls, r.get? id = some cls := fun id hid =>
    Option.isSome_iff_exists.mp (hids.isSome_get? hid)
  refine ⟨_, hids.search_eq fun k _ => hr.ends k, ?_, fun found hfound => ?_⟩
  · rw [List.findSome?_eq_none_iff]
    constructor
    · intro hnone id v habove
      have hid := hids.mem_iff.mpr habove
      obtain ⟨cls, hcls⟩ := hclass id hid
      exact (held_eq_none_iff hr hsources hname hcaller hcls).mp (hnone id hid) v
    · intro hnone id hid
      obtain ⟨cls, hcls⟩ := hclass id hid
      exact (held_eq_none_iff hr hsources hname hcaller hcls).mpr fun v =>
        hnone id v (hids.mem_iff.mp hid)
  · obtain ⟨pre, owner, post, rfl, hheld, hpre⟩ := List.findSome?_eq_some_iff.mp hfound
    have hmem : owner ∈ pre ++ owner :: post := List.mem_append_right pre List.mem_cons_self
    obtain ⟨cls, hcls⟩ := hclass owner hmem
    obtain ⟨v, rfl, hoffers, hfirst, hstands⟩ := exists_of_held hr hsources hname hcaller hcls hheld
    refine ⟨v, hids.mem_iff.mp hmem, hoffers, fun id v' habove hid => ?_, hfirst, cls, hcls, hstands⟩
    -- A class before the owner has nothing to offer, and those after it are above it.
    rcases List.mem_append.mp (hids.mem_iff.mpr habove) with hbefore | hafter
    · obtain ⟨cls', hcls'⟩ := hclass id (List.mem_append_left _ hbefore)
      have hnone := (held_eq_none_iff hr hsources hname hcaller hcls').mp (hpre id hbefore)
      exact absurd hid (hnone v')
    · exact hids.of_append.mem_iff.mp hafter

end Registry

/-- Code is in the class of its context, under the name of this class. -/
lemma Context.exists_caller {c : Context} {s : State} (h : ∀ k ∈ c.owner, (s.registry.get? k).isSome) :
    ∃ caller, c.Caller s caller ∧ caller.map (·.1) = c.owner ∧
      ∀ p ∈ caller, ∃ cls, s.registry.get? p.1 = some cls ∧ cls.name = p.2 := by
  cases howner : c.owner with
  | none => exact ⟨none, .outside howner, rfl, nofun⟩
  | some k =>
    obtain ⟨cls, hcls⟩ := Option.isSome_iff_exists.mp (h k howner)
    refine ⟨some (k, cls.name), .inside howner hcls, rfl, ?_⟩
    rintro _ ⟨⟩
    exact ⟨cls, hcls, rfl⟩

/-- The members of `super` are looked for from the class above. -/
lemma Target.edge_of_ofSuper {c : Context} {s s' : State} {target : Target} {k : ClassId}
    (hk : c.owner = some k) (h : (Target.ofSuper c).run s = .ok target s') :
    s.registry.Edge k target.start := by
  unfold Target.ofSuper at h
  rw [hk] at h
  cases hcls : s.registry.get? k with
  | none =>
    rw [run_bind_error (Exec.run_classOf_none hcls)] at h
    cases h
  | some cls =>
    rw [run_bind_ok (Exec.run_classOf hcls)] at h
    cases hparent : cls.parent with
    | none =>
      rw [hparent] at h
      cases h
    | some parent =>
      rw [hparent] at h
      refine ⟨cls, hcls, ?_⟩
      dsimp only at h
      split at h <;> cases h <;> exact hparent

/-- **Looking for a member finds the most derived declaration that can be seen.**  Where every class
extends an earlier one and all names are proper, looking for a name always comes to an end.  It finds
nothing just if no class from the start upward declares the name so that the code sees it: as public, as
protected in a class that is related to the class of the code, or as private in a class with the name of
the class of the code.  Otherwise it finds what the first such class declares, as private before public
and as public before protected.  What is found by way of `super` stands further up than the class of the
code. -/
theorem resolve_finds_most_derived {s : State} {sources : ClassId → ClassSource}
    (hr : s.registry.Ordered) (hsources : s.registry.DeclaredBy sources) (c : Context) (target : Target)
    {name : String} (hname : Class.IsName name) (hstart : (s.registry.get? target.start).isSome)
    (hcaller : ∀ k ∈ c.owner, (s.registry.get? k).isSome) :
    ∃ result, (resolve c target name).run s = .ok result s ∧
      (result = none ↔ ∀ id v, s.registry.Above target.start id →
        ¬s.registry.Offers sources c.owner target.side name id v) ∧
      ∀ found ∈ result,
        (∃ v, s.registry.Picks sources c.owner target.side name target.start found v) ∧
        ((Target.ofSuper c).run s = .ok target s → ∀ k ∈ c.owner,
          s.registry.Above k found.owner ∧ ¬s.registry.Above found.owner k) := by
  obtain ⟨caller, hcontext, howner, hregistered⟩ := Context.exists_caller hcaller
  obtain ⟨result, hsearch, hnone, hsome⟩ :=
    Registry.exists_search target.side hr hsources hname hregistered hstart
  rw [howner] at hnone hsome
  refine ⟨result, ?_, hnone, fun found hfound => ⟨hsome found hfound, fun hsuper k hk => ?_⟩⟩
  · rw [hcontext.run_resolve]
    simp only [resolveFor, EStateM.run_bind, EStateM.run_get]
    rw [hsearch]
    cases result <;> rfl
  · obtain ⟨v, hpicks⟩ := hsome found hfound
    have hedge := Target.edge_of_ofSuper hk hsuper
    refine ⟨.head hedge hpicks.above, fun hback => ?_⟩
    have hlt := hr _ _ hedge
    have hle := hr.index_le hpicks.above
    have hle' := hr.index_le hback
    omega

/-- A class with a protected field. -/
def openingDecl : ClassDecl :=
  ⟨"A", none, [⟨"x", .isProtected, false, .field none, ⟨1, 11⟩⟩], ⟨1, 1⟩⟩

/-- A class below it with a private field of the same name. -/
def closingDecl : ClassDecl :=
  ⟨"B", some ⟨⟨2, 17⟩, .variable "A"⟩, [⟨"x", .isPrivate, false, .field none, ⟨2, 21⟩⟩], ⟨2, 1⟩⟩

/-- An interpreter with the two classes. -/
def layeredState : State :=
  let class₁ : Class := ⟨"A", none, .script Interpreter.root none, {}, {}, [⟨"#x", none⟩], {}⟩
  let class₂ : Class := ⟨"B", some ⟨0⟩, .script Interpreter.root none, {}, {}, [⟨"B::x", none⟩], {}⟩
  { plainState with registry := ⟨#[class₁, class₂]⟩ }

/-- Where the two classes come from. -/
def layeredSources (id : ClassId) : ClassSource :=
  .script (if id.index = 0 then openingDecl else closingDecl)

lemma index_of_get?_layeredState {id : ClassId} {cls : Class}
    (h : layeredState.registry.get? id = some cls) : id = ⟨0⟩ ∨ id = ⟨1⟩ := by
  have hlt := Registry.lt_size_of_get? h
  have hsize : layeredState.registry.size = 2 := rfl
  obtain ⟨index⟩ := id
  obtain rfl | rfl : index = 0 ∨ index = 1 := by
    rw [hsize] at hlt
    change index < 2 at hlt
    omega
  · exact .inl rfl
  · exact .inr rfl

lemma ordered_layeredState : layeredState.registry.Ordered := by
  rintro a b ⟨cls, hcls, hb⟩
  rcases index_of_get?_layeredState hcls with rfl | rfl
  · cases hcls
    cases hb
  · cases hcls
    cases hb
    decide

lemma declaredBy_layeredState : layeredState.registry.DeclaredBy layeredSources := by
  have hnames : ∀ decl : ClassDecl, Grammar.IsIdentifier decl.name →
      (∀ m ∈ decl.members, m.declared.map (·.2) = ["x"]) → (ClassSource.script decl).Named := by
    intro decl hname hmembers
    refine ⟨hname, fun side v name hdeclares => .inl ?_⟩
    obtain ⟨m, hm, -, hentry⟩ := hdeclares
    have hmem := List.mem_map_of_mem (f := Prod.snd) hentry
    rw [hmembers m hm, List.mem_singleton] at hmem
    change name = "x" at hmem
    rw [hmem]
    decide +kernel
  intro id cls hcls
  rcases index_of_get?_layeredState hcls with rfl | rfl
  · cases hcls
    refine ⟨⟨none, Interpreter.root, _, rfl, .refl _⟩, hnames openingDecl (by decide +kernel) ?_⟩
    simp [openingDecl, MemberDecl.declared]
  · cases hcls
    refine ⟨⟨some ⟨0⟩, Interpreter.root, _, rfl, .refl _⟩, hnames closingDecl (by decide +kernel) ?_⟩
    simp [closingDecl, MemberDecl.declared]

/-- Code of the first class does not see the field of the second, and finds its own. -/
theorem resolve_finds_most_derived_layered :
    let found : Registry.Found := .field ⟨0⟩ "#x"
    (resolve (.method ⟨0⟩ Interpreter.root ⟨0⟩ none) ⟨⟨1⟩, .ofInstance, none⟩ "x").run layeredState =
        .ok (some found) layeredState ∧
      ∃ v, layeredState.registry.Picks layeredSources (some ⟨0⟩) .ofInstance "x" ⟨1⟩ found v := by
  have hx : Class.IsName "x" := .inl (by decide +kernel)
  have hfound : (resolve (.method ⟨0⟩ Interpreter.root ⟨0⟩ none) ⟨⟨1⟩, .ofInstance, none⟩ "x").run
      layeredState = .ok (some (.field ⟨0⟩ "#x")) layeredState := rfl
  obtain ⟨result, hrun, -, hsome⟩ := resolve_finds_most_derived ordered_layeredState
    declaredBy_layeredState (.method ⟨0⟩ Interpreter.root ⟨0⟩ none) ⟨⟨1⟩, .ofInstance, none⟩ hx rfl
    (by rintro _ ⟨⟩; rfl)
  cases hfound.symm.trans hrun
  exact ⟨hfound, (hsome _ rfl).1⟩

end ScriptLang
