/-
Ancestry.

Whether a class is derived from another one is found out by going from parent to parent.  `Registry.Seeks` is
this walk without any bound, so that there is an answer only if the walk comes to an end, and the bounded
computation gives this answer or none (`Registry.seeks_iff`).  A class is registered after the one that it
extends (`Registry.Registers`), so numbers get smaller on the way up, and the walk ends from every number,
registered or not.  The classes that it finds are those above, along one or more steps, and from this follow
the laws of ancestry (`ancestry_is_transitive_closure`).
-/
import ScriptLang.Proofs.Class.Ascent

namespace ScriptLang

namespace Registry

/-- A class is registered, and if it extends another one, that one is registered already. -/
def Registers (r r' : Registry) : Prop :=
  ∃ cls : Class, (∀ p ∈ cls.parent, (r.get? p).isSome) ∧ r' = (r.insert cls).2

/-- The walk that looks for `b` from parent to parent, with the next class to look at.  It ends where it finds
`b` and where there is no parent any more. -/
inductive Seeks (r : Registry) (b : ClassId) : Option ClassId → Bool → Prop
  | out : Seeks r b none false
  | found : Seeks r b (some b) true
  | next {id answer} : id ≠ b → Seeks r b (r.parent? id) answer → Seeks r b (some id) answer

variable {r r' : Registry} {a b c id : ClassId}

/-- A class extends one other at most. -/
lemma edge_rightUnique (r : Registry) : Relator.RightUnique r.Edge := fun _ _ _ => Edge.unique

/-! ## Registering classes one after the other -/

/-- A class that is registered stays what it is. -/
lemma Registers.get?_eq (h : r.Registers r') {cls : Class} (hid : r.get? id = some cls) :
    r'.get? id = some cls := by
  obtain ⟨added, -, rfl⟩ := h
  exact get?_insert_of_some hid added

lemma get?_eq_of_registers (h : Relation.ReflTransGen Registers r r') {cls : Class}
    (hid : r.get? id = some cls) : r'.get? id = some cls := by
  induction h with
  | refl => exact hid
  | tail _ hstep ih => exact hstep.get?_eq ih

/-- The new class comes after the one that it extends. -/
lemma Registers.ordered (h : r.Registers r') (hr : r.Ordered) : r'.Ordered := by
  obtain ⟨added, hparent, rfl⟩ := h
  rintro a b ⟨cls, hcls, hb⟩
  rw [get?_insert] at hcls
  split at hcls
  next hlast =>
    cases hcls
    obtain ⟨parent, hget⟩ := Option.isSome_iff_exists.mp (hparent b hb)
    rw [hlast]
    exact lt_size_of_get? hget
  next => exact hr a b ⟨cls, hcls, hb⟩

lemma ordered_of_registers (h : Relation.ReflTransGen Registers {} r) : r.Ordered := by
  induction h with
  | refl =>
    rintro a b ⟨cls, hcls, -⟩
    simp [get?] at hcls
  | tail _ hstep ih => exact hstep.ordered ih

namespace Ordered

/-! ## Steps from class to class -/

/-- A class that is extended is registered. -/
lemma isSome_of_edge (hr : r.Ordered) (h : r.Edge a b) : (r.get? b).isSome := by
  have hlt := hr a b h
  obtain ⟨cls, hcls, -⟩ := h
  exact isSome_get?_of_lt (hlt.trans (lt_size_of_get? hcls))

/-- What is registered later does not change the ways up from a class. -/
lemma transGen_iff_of_kept (hr : r.Ordered) (hkept : ∀ id cls, r.get? id = some cls → r'.get? id = some cls)
    (ha : (r.get? a).isSome) : Relation.TransGen r'.Edge a b ↔ Relation.TransGen r.Edge a b := by
  have hedge : ∀ {a b}, (r.get? a).isSome → r'.Edge a b → r.Edge a b := by
    rintro a b ha ⟨cls, hcls, hb⟩
    obtain ⟨before, hbefore⟩ := Option.isSome_iff_exists.mp ha
    obtain rfl := Option.some.inj (hcls.symm.trans (hkept a before hbefore))
    exact ⟨cls, hbefore, hb⟩
  constructor
  · intro h
    induction h using Relation.TransGen.head_induction_on with
    | single hstep => exact .single (hedge ha hstep)
    | head hstep _ ih =>
      have hbefore := hedge ha hstep
      exact .head hbefore (ih (hr.isSome_of_edge hbefore))
  · intro h
    refine Relation.TransGen.mono (fun a b => ?_) _ _ h
    rintro ⟨cls, hcls, hb⟩
    exact ⟨cls, hkept a cls hcls, hb⟩

end Ordered

/-! ## Walks -/

/-- The walk comes to an end if the chain does. -/
lemma Ends.exists_seeks (h : r.Ends id) (b : ClassId) : ∃ answer, r.Seeks b (some id) answer := by
  induction h with
  | intro id _ ih =>
    by_cases hid : id = b
    · subst hid
      exact ⟨true, .found⟩
    · cases hparent : r.parent? id with
      | none => exact ⟨false, .next hid (hparent ▸ .out)⟩
      | some p =>
        obtain ⟨answer, hanswer⟩ := ih p (edge_iff_parent?.mpr hparent)
        exact ⟨answer, .next hid (hparent ▸ hanswer)⟩

/-- It also comes to an end if what it looks for is above. -/
lemma Above.seeks (h : r.Above id b) : r.Seeks b (some id) true := by
  induction h using Relation.ReflTransGen.head_induction_on with
  | refl => exact .found
  | @head id p hedge _ ih =>
    by_cases hid : id = b
    · subst hid
      exact .found
    · exact .next hid (edge_iff_parent?.mp hedge ▸ ih)

/-- A walk that ends without finding anything has come to the end of the chain. -/
lemma Seeks.ends {next : Option ClassId} (h : r.Seeks b next false) : ∀ id ∈ next, r.Ends id := by
  generalize hanswer : false = answer at h
  induction h with
  | out => nofun
  | found => cases hanswer
  | next _ _ ih =>
    rintro _ ⟨⟩
    exact .intro _ fun p hp => ih hanswer p (edge_iff_parent?.mp hp)

/-- A walk that ends has found what it looks for if this is above the class where it starts. -/
lemma Seeks.answer_iff {next : Option ClassId} {answer : Bool} (h : r.Seeks b next answer) :
    answer = true ↔ ∃ id, next = some id ∧ r.Above id b := by
  induction h with
  | out => simp
  | found => simp [Above.refl]
  | @next id answer hne _ ih =>
    rw [ih]
    constructor
    · rintro ⟨p, hparent, habove⟩
      exact ⟨id, rfl, .head (edge_iff_parent?.mpr hparent) habove⟩
    · rintro ⟨_, heq, habove⟩
      cases heq
      rcases Relation.ReflTransGen.cases_head habove with heq | ⟨p, hedge, hrest⟩
      · exact absurd heq hne
      · exact ⟨p, edge_iff_parent?.mp hedge, hrest⟩

/-- The bounded computation gives the answer of the walk from the parent of a class, and none where the walk
does not end. -/
theorem seeks_iff (r : Registry) (a b : ClassId) (answer : Bool) :
    r.Seeks b (r.parent? a) answer ↔ r.isExtendedFrom a b = some answer := by
  have hsteps : Relation.TransGen r.Edge a b ↔ ∃ p, r.parent? a = some p ∧ r.Above p b := by
    simp only [Relation.TransGen.head'_iff, edge_iff_parent?, Above]
  cases answer with
  | true =>
    rw [isExtendedFrom_eq_true, hsteps]
    refine ⟨fun h => h.answer_iff.mp rfl, ?_⟩
    rintro ⟨p, hp, habove⟩
    exact hp ▸ habove.seeks
  | false =>
    rw [isExtendedFrom_eq_false, hsteps]
    constructor
    · intro h
      refine ⟨.intro a fun p hp => h.ends p (edge_iff_parent?.mp hp), fun hfound => ?_⟩
      cases h.answer_iff.mpr hfound
    · rintro ⟨hends, hnone⟩
      cases hparent : r.parent? a with
      | none => exact .out
      | some p =>
        obtain ⟨answer, hanswer⟩ := Ends.exists_seeks (hends.inv (edge_iff_parent?.mpr hparent)) b
        cases answer with
        | false => exact hanswer
        | true => exact absurd (hparent ▸ hanswer.answer_iff.mp rfl) hnone

/-! ## Comparisons -/

/-- A class extends one class at most, so its ancestors stand in one line. -/
lemma comparable_of_isExtendedFrom {c : ClassId} (hab : r.isExtendedFrom a b = some true)
    (hac : r.isExtendedFrom a c = some true) :
    b = c ∨ r.isExtendedFrom b c = some true ∨ r.isExtendedFrom c b = some true := by
  rw [isExtendedFrom_eq_true] at hab hac
  rw [isExtendedFrom_eq_true, isExtendedFrom_eq_true]
  have hways := Relation.ReflTransGen.total_of_right_unique r.edge_rightUnique hab.to_reflTransGen
    hac.to_reflTransGen
  simp only [Relation.reflTransGen_iff_eq_or_transGen] at hways
  rcases hways with (heq | hway) | (heq | hway)
  · exact .inl heq.symm
  · exact .inr (.inl hway)
  · exact .inl heq
  · exact .inr (.inr hway)

lemma isRelated_iff_reflGen (ha : r.Ends a) : r.isRelated a b = some true ↔
    Relation.ReflGen (Relation.SymmGen fun a b => r.isExtendedFrom a b = some true) a b := by
  have hsymm : Relation.SymmGen (fun a b => r.isExtendedFrom a b = some true) a b ↔
      Relation.TransGen r.Edge a b ∨ Relation.TransGen r.Edge b a :=
    or_congr isExtendedFrom_eq_true isExtendedFrom_eq_true
  rw [Relation.reflGen_iff, hsymm, isRelated_eq_true ha]
  simp only [Above, Relation.reflTransGen_iff_eq_or_transGen]
  tauto

end Registry

/-- **Ancestry is the transitive closure of extension.**  In a registry in which each class was registered
after the one that it extends, the walk from parent to parent ends for all numbers, with the answer that says
whether there are one or more steps from the first class up to the second.  This is a strict order in which
any two ancestors of a class are comparable, it does not change for a class when others are registered later,
and relationship is its reflexive symmetric closure. -/
theorem ancestry_is_transitive_closure {r : Registry} (hr : Relation.ReflTransGen Registry.Registers {} r) :
    (∀ a b, (r.isExtendedFrom a b).isSome ∧ (r.isRelated a b).isSome) ∧
    (∀ a b answer, r.Seeks b (r.parent? a) answer ↔ r.isExtendedFrom a b = some answer) ∧
    (∀ a b, r.isExtendedFrom a b = some true ↔ Relation.TransGen r.Edge a b) ∧
    (∀ a, r.isExtendedFrom a a ≠ some true) ∧
    (∀ a b c, r.isExtendedFrom a b = some true → r.isExtendedFrom b c = some true →
      r.isExtendedFrom a c = some true) ∧
    (∀ a b c, r.isExtendedFrom a b = some true → r.isExtendedFrom a c = some true →
      b = c ∨ r.isExtendedFrom b c = some true ∨ r.isExtendedFrom c b = some true) ∧
    (∀ r', Relation.ReflTransGen Registry.Registers r r' → ∀ a b, (r.get? a).isSome →
      r'.isExtendedFrom a b = r.isExtendedFrom a b) ∧
    ∀ a b, r.isRelated a b = some true ↔
      Relation.ReflGen (Relation.SymmGen fun a b => r.isExtendedFrom a b = some true) a b := by
  have hordered := Registry.ordered_of_registers hr
  have hends := hordered.ends
  refine ⟨fun a b => ⟨Registry.isSome_isExtendedFrom (hends a) b, ?_⟩, r.seeks_iff,
    fun a b => Registry.isExtendedFrom_eq_true, fun a h => ?_, fun a b c hab hbc => ?_,
    fun a b c => Registry.comparable_of_isExtendedFrom, fun r' hlater a b ha => ?_,
    fun a b => Registry.isRelated_iff_reflGen (hends a)⟩
  · exact Registry.isSome_isRelated (hends a) (hends b)
  · exact (hends a).not_transGen (Registry.isExtendedFrom_eq_true.mp h)
  · rw [Registry.isExtendedFrom_eq_true] at hab hbc ⊢
    exact hab.trans hbc
  · have hsame := hordered.transGen_iff_of_kept (b := b) (fun _ _ => Registry.get?_eq_of_registers hlater) ha
    rw [← Registry.isExtendedFrom_eq_true, ← Registry.isExtendedFrom_eq_true] at hsame
    have hends' := (Registry.ordered_of_registers (hr.trans hlater)).ends a
    obtain ⟨now, hnow⟩ := Option.isSome_iff_exists.mp (Registry.isSome_isExtendedFrom (hends a) b)
    obtain ⟨later, hlater⟩ := Option.isSome_iff_exists.mp (Registry.isSome_isExtendedFrom hends' b)
    rw [hnow, hlater, Option.some_inj, Option.some_inj] at hsame
    rw [hnow, hlater, Bool.eq_iff_iff.mpr hsame]

/-- A class without members. -/
def plainClass (name : String) (parent : Option ClassId) : Class := { name, parent, origin := .host none }

/-- Four classes, of which the third extends the second, and this one the first. -/
def familyRegistry : Registry :=
  [plainClass "A" none, plainClass "B" (some ⟨0⟩), plainClass "C" (some ⟨1⟩), plainClass "U" none].foldl
    (fun r cls => (r.insert cls).2) {}

/-- The third class is derived from the first, though it does not extend it, and the fourth is a stranger. -/
theorem ancestry_is_transitive_closure_family :
    Relation.ReflTransGen Registry.Registers {} familyRegistry ∧
      familyRegistry.parent? ⟨2⟩ ≠ some ⟨0⟩ ∧ familyRegistry.isExtendedFrom ⟨2⟩ ⟨0⟩ = some true ∧
      familyRegistry.Seeks ⟨3⟩ (familyRegistry.parent? ⟨2⟩) false := by
  have hbuilt : Relation.ReflTransGen Registry.Registers {} familyRegistry := by
    refine .tail (.tail (.tail (.single ⟨plainClass "A" none, ?_, rfl⟩) ⟨plainClass "B" (some ⟨0⟩), ?_, rfl⟩)
      ⟨plainClass "C" (some ⟨1⟩), ?_, rfl⟩) ⟨plainClass "U" none, ?_, rfl⟩
    · nofun
    · rintro p ⟨⟩
      rfl
    · rintro p ⟨⟩
      rfl
    · nofun
  obtain ⟨-, hseeks, hsteps, -, htrans, -⟩ := ancestry_is_transitive_closure hbuilt
  have hup : familyRegistry.isExtendedFrom ⟨2⟩ ⟨1⟩ = some true := (hsteps _ _).mpr (.single ⟨_, rfl, rfl⟩)
  have htop : familyRegistry.isExtendedFrom ⟨1⟩ ⟨0⟩ = some true := (hsteps _ _).mpr (.single ⟨_, rfl, rfl⟩)
  exact ⟨hbuilt, by decide, htrans _ _ _ hup htop, (hseeks _ _ _).mpr (by decide)⟩

end ScriptLang
