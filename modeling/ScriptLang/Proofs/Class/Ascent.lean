/-
Walks up the chain of a class.

Members are looked for, relationship is decided and instances are set up along the chain of a class, from
parent to parent.  `Registry.Climbs` says which classes such a walk visits.  Where every class extends an
earlier one (`Registry.Ordered`), there is a walk from every registered class (`Registry.exists_climbs`).
A walk visits no class twice (`Registry.Climbs.nodup`), so the bounded computations of the registry never
reach their bound: a search gives what the first class of the walk has (`Registry.Climbs.search_eq`), and
the ancestors are the classes after the first (`Registry.Climbs.ancestors_eq`).
-/
import ScriptLang.Proofs.Class.Chain

namespace ScriptLang

namespace Registry

/-- The walk from a class upward visits these classes, all of them registered, and ends at one that
extends no other. -/
inductive Climbs (r : Registry) : ClassId → List ClassId → Prop
  | top {id cls} : r.get? id = some cls → cls.parent = none → Climbs r id [id]
  | up {id cls p ids} : r.get? id = some cls → cls.parent = some p → Climbs r p ids →
      Climbs r id (id :: ids)

/-- Every class that extends another one comes after it. -/
def Ordered (r : Registry) : Prop := ∀ a b, r.Edge a b → b.index < a.index

variable {r : Registry} {a b id k : ClassId} {cls : Class} {ids : List ClassId}

lemma isSome_get?_of_lt (h : id.index < r.size) : (r.get? id).isSome := by
  simpa [get?, size] using h

lemma Ordered.ends (hr : r.Ordered) (id : ClassId) : r.Ends id := (grounded_of_lt hr).ends id

/-- A class above another one is not a later one. -/
lemma Ordered.index_le (hr : r.Ordered) (h : r.Above a b) : b.index ≤ a.index := by
  induction h with
  | refl => exact Nat.le_refl _
  | tail _ hedge ih => exact (Nat.le_of_lt (hr _ _ hedge)).trans ih

/-- The walk from a registered class ends if it goes to earlier classes all the time. -/
theorem exists_climbs_of_lt (hid : (r.get? id).isSome)
    (hlt : ∀ a b, r.Above id a → r.Edge a b → b.index < a.index) : ∃ ids, r.Climbs id ids := by
  obtain ⟨cls, hcls⟩ := Option.isSome_iff_exists.mp hid
  induction h : id.index using Nat.strong_induction_on generalizing id cls with
  | _ n ih =>
    cases hparent : cls.parent with
    | none => exact ⟨_, .top hcls hparent⟩
    | some p =>
      have hedge : r.Edge id p := ⟨cls, hcls, hparent⟩
      have hp : p.index < id.index := hlt id p (.refl r id) hedge
      have hsome : (r.get? p).isSome := isSome_get?_of_lt (hp.trans (lt_size_of_get? hcls))
      obtain ⟨cls', hcls'⟩ := Option.isSome_iff_exists.mp hsome
      have habove : ∀ a b, r.Above p a → r.Edge a b → b.index < a.index := fun a b ha =>
        hlt a b ((Above.refl r id).parent hcls hparent |>.trans ha)
      obtain ⟨ids, hids⟩ := ih p.index (h ▸ hp) hsome habove cls' hcls' rfl
      exact ⟨_, .up hcls hparent hids⟩

lemma exists_climbs (hr : r.Ordered) (hid : (r.get? id).isSome) : ∃ ids, r.Climbs id ids :=
  exists_climbs_of_lt hid fun a b _ => hr a b

namespace Climbs

lemma ne_nil (h : r.Climbs id ids) : ids ≠ [] := by
  cases h <;> exact List.cons_ne_nil _ _

lemma isSome_get? (h : r.Climbs id ids) (hk : k ∈ ids) : (r.get? k).isSome := by
  induction h with
  | top hcls =>
    rw [List.mem_singleton.mp hk, hcls]
    rfl
  | up hcls _ _ ih =>
    rcases List.mem_cons.mp hk with rfl | hk
    · rw [hcls]
      rfl
    · exact ih hk

/-- The walk visits the classes above. -/
lemma mem_iff (h : r.Climbs id ids) : k ∈ ids ↔ r.Above id k := by
  induction h with
  | @top id cls hcls hparent =>
    rw [List.mem_singleton]
    constructor
    · rintro rfl
      exact .refl r k
    · intro habove
      rcases Relation.ReflTransGen.cases_head habove with heq | ⟨b, ⟨cls', hcls', hb⟩, -⟩
      · exact heq.symm
      · cases hcls.symm.trans hcls'
        rw [hparent] at hb
        cases hb
  | @up id cls p ids hcls hparent _ ih =>
    rw [List.mem_cons, ih]
    constructor
    · rintro (rfl | habove)
      · exact .refl r k
      · exact ((Above.refl r id).parent hcls hparent).trans habove
    · intro habove
      rcases Relation.ReflTransGen.cases_head habove with heq | ⟨b, ⟨cls', hcls', hb⟩, hrest⟩
      · exact .inl heq.symm
      · cases hcls.symm.trans hcls'
        cases hparent.symm.trans hb
        exact .inr hrest

/-- The chain of a class from which there is a walk ends. -/
lemma ends (h : r.Climbs id ids) : r.Ends id := by
  induction h with
  | top hcls hparent =>
    refine .intro _ fun b hb => ?_
    obtain ⟨cls, hcls', hb⟩ := hb
    cases hcls.symm.trans hcls'
    cases hparent.symm.trans hb
  | up hcls hparent _ ih => exact .intro _ fun b hb => hb.unique ⟨_, hcls, hparent⟩ ▸ ih

/-- From each class that is visited the walk goes on as it would from there. -/
lemma of_append {pre post : List ClassId} (h : r.Climbs id (pre ++ k :: post)) :
    r.Climbs k (k :: post) := by
  induction pre generalizing id with
  | nil =>
    rw [List.nil_append] at h
    cases h with
    | top hcls hparent => exact .top hcls hparent
    | up hcls hparent hids => exact .up hcls hparent hids
  | cons a pre ih =>
    rw [List.cons_append] at h
    generalize hrest : pre ++ k :: post = rest at h
    cases h with
    | top => simp at hrest
    | up _ _ hids => exact ih (hrest ▸ hids)

/-- There is one walk from a class. -/
lemma unique {ids' : List ClassId} (h : r.Climbs id ids) (h' : r.Climbs id ids') : ids = ids' := by
  induction h generalizing ids' with
  | top hcls hparent =>
    cases h' with
    | top => rfl
    | up hcls' hparent' =>
      cases hcls.symm.trans hcls'
      cases hparent.symm.trans hparent'
  | up hcls hparent _ ih =>
    cases h' with
    | top hcls' hparent' =>
      cases hcls.symm.trans hcls'
      cases hparent.symm.trans hparent'
    | up hcls' hparent' hids' =>
      cases hcls.symm.trans hcls'
      cases hparent.symm.trans hparent'
      rw [ih hids']

/-- A walk that ends visits no class twice, for from there it would go on as it did before. -/
lemma nodup (h : r.Climbs id ids) : ids.Nodup := by
  induction h with
  | top => exact List.nodup_singleton _
  | @up id cls p ids hcls hparent hids ih =>
    refine List.nodup_cons.mpr ⟨fun hmem => ?_, ih⟩
    obtain ⟨pre, post, rfl⟩ := List.append_of_mem hmem
    have hagain := unique hids.of_append (.up hcls hparent hids)
    have hlength := congrArg List.length hagain
    simp only [List.length_cons, List.length_append] at hlength
    omega

/-- A walk visits no more classes than there are. -/
lemma length_le (h : r.Climbs id ids) : ids.length ≤ r.size := by
  have hsubset : ids.map ClassId.index ⊆ List.range r.size := by
    intro n hn
    obtain ⟨k, hk, rfl⟩ := List.mem_map.mp hn
    obtain ⟨cls, hcls⟩ := Option.isSome_iff_exists.mp (h.isSome_get? hk)
    exact List.mem_range.mpr (lt_size_of_get? hcls)
  have hnodup : (ids.map ClassId.index).Nodup :=
    h.nodup.map fun a b hab => by cases a; cases b; exact congrArg ClassId.mk hab
  simpa using (hnodup.subperm hsubset).length_le

/-! ## Ancestors -/

lemma ancestorsWithin_eq (h : r.Climbs id ids) {bound : Nat} (hbound : ids.length ≤ bound + 1) :
    r.ancestorsWithin bound id = ids.tail := by
  induction h generalizing bound with
  | top hcls hparent =>
    cases bound <;> simp [ancestorsWithin, parent?, hcls, hparent]
  | @up id cls p ids hcls hparent hids ih =>
    have hlength : 0 < ids.length := List.length_pos_iff.mpr hids.ne_nil
    rw [List.length_cons] at hbound
    obtain ⟨bound, rfl⟩ : ∃ k, bound = k + 1 := ⟨bound - 1, by omega⟩
    have hcons : p :: ids.tail = ids := by
      cases hids <;> rfl
    simp only [ancestorsWithin, parent?, hcls, Option.bind_some, hparent, List.tail_cons]
    rw [ih (by omega), hcons]

/-- The ancestors of a class are the classes that a walk visits after it. -/
theorem ancestors_eq (h : r.Climbs id ids) : r.ancestors id = ids.tail :=
  h.ancestorsWithin_eq (by have := h.length_le; omega)

end Climbs

/-! ## Searches -/

variable {caller : Option (ClassId × String)} {side : Side} {name : String}

/-- What a class has under a name, as far as the caller can see it. -/
def held (r : Registry) (caller : Option (ClassId × String)) (side : Side) (name : String)
    (id : ClassId) : Option Found :=
  (r.get? id).bind fun cls => Found.inClass? id cls side (r.visibleKeys caller name id)

/-- How a search ends that found something, or nothing. -/
def Search.ofOption : Option Found → Search
  | some result => .found result
  | none => .absent

lemma Climbs.searchWithin_eq (h : r.Climbs id ids) (hcaller : ∀ k ∈ caller.map (·.1), r.Ends k)
    {bound : Nat} (hbound : ids.length ≤ bound) :
    r.searchWithin caller side name bound id =
      .ofOption (ids.findSome? (r.held caller side name)) := by
  have hsettles := settles_of_ends hcaller h.ends
  induction h generalizing bound with
  | top hcls hparent =>
    obtain ⟨bound, rfl⟩ : ∃ k, bound = k + 1 := ⟨bound - 1, by simp at hbound; omega⟩
    simp only [searchWithin, hcls, if_pos hsettles, List.findSome?_singleton, held, Option.bind_some,
      hparent]
    split
    next heq => rw [heq]; rfl
    next heq => rw [heq]; rfl
  | up hcls hparent hids ih =>
    rw [List.length_cons] at hbound
    obtain ⟨bound, rfl⟩ : ∃ k, bound = k + 1 := ⟨bound - 1, by omega⟩
    simp only [searchWithin, hcls, if_pos hsettles, List.findSome?_cons, held, Option.bind_some, hparent]
    split
    next heq => simp only [heq]; rfl
    next heq =>
      simp only [heq]
      exact ih (by omega) (settles_of_ends hcaller hids.ends)

/-- A search gives what the first of the classes has that are visited from its start, if the chain of the
caller ends. -/
theorem Climbs.search_eq (h : r.Climbs id ids) (hcaller : ∀ k ∈ caller.map (·.1), r.Ends k) :
    r.search caller side name id = .ofOption (ids.findSome? (r.held caller side name)) :=
  h.searchWithin_eq hcaller (by have := h.length_le; omega)

end Registry

end ScriptLang
