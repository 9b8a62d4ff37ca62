/-
Chains of classes.

A class extends at most one other, so the classes above it form a chain.  Looking for a member follows
the chain, and what is found stands in one of its classes, under a key that the caller can see.  A chain
that goes round in circles, be it that of the class or that of the caller, is the only reason for a search
not to end (`Registry.search_ne_endless`).
-/
import Mathlib.Data.Finset.Card
import Mathlib.Data.List.Chain
import Mathlib.Data.List.Nodup
import Mathlib.Data.List.Perm.Subperm
import Mathlib.Data.Nat.Find
import Mathlib.Logic.Relation
import Mathlib.Order.WellFounded
import ScriptLang.Class.Registry

namespace ScriptLang

namespace Registry

variable {r r' : Registry} {a b id start : ClassId} {cls : Class}

/-- The class `b` is the one that `a` extends. -/
def Edge (r : Registry) (a b : ClassId) : Prop := ∃ cls, r.get? a = some cls ∧ cls.parent = some b

/-- The class `b` is `a` or one of its ancestors. -/
def Above (r : Registry) : ClassId → ClassId → Prop := Relation.ReflTransGen r.Edge

/-- The chain above a class ends. -/
def Ends (r : Registry) : ClassId → Prop := Acc fun b a => r.Edge a b

/-- Every chain of classes ends. -/
def Grounded (r : Registry) : Prop := WellFounded fun b a => r.Edge a b

lemma Above.refl (r : Registry) (id : ClassId) : r.Above id id := Relation.ReflTransGen.refl

lemma Above.parent {p : ClassId} (h : r.Above a b) (hb : r.get? b = some cls)
    (hp : cls.parent = some p) : r.Above a p :=
  Relation.ReflTransGen.tail h ⟨cls, hb, hp⟩

lemma Above.trans {c : ClassId} (h : r.Above a b) (h' : r.Above b c) : r.Above a c :=
  Relation.ReflTransGen.trans h h'

lemma Above.mono (hedge : ∀ a b, r.Edge a b → r'.Edge a b) (h : r.Above a b) : r'.Above a b :=
  Relation.ReflTransGen.mono hedge a b h

lemma Edge.unique {c : ClassId} (h : r.Edge a b) (h' : r.Edge a c) : b = c := by
  obtain ⟨cls, hcls, hb⟩ := h
  obtain ⟨cls', hcls', hc⟩ := h'
  cases hcls.symm.trans hcls'
  exact Option.some.inj (hb.symm.trans hc)

lemma edge_iff_parent? : r.Edge a b ↔ r.parent? a = some b := Option.bind_eq_some_iff.symm

lemma Ends.above (h : r.Ends a) (hab : r.Above a b) : r.Ends b := by
  induction hab with
  | refl => exact h
  | tail _ hedge ih => exact ih.inv hedge

/-- A chain that ends does not come back to its class. -/
lemma Ends.not_transGen (h : r.Ends a) : ¬Relation.TransGen r.Edge a a := by
  intro hcycle
  have hacc := Acc.transGen h
  induction hacc with
  | intro a _ ih => exact ih a (Relation.transGen_swap.mpr hcycle) (h.above hcycle.to_reflTransGen) hcycle

lemma Grounded.ends (hr : r.Grounded) (id : ClassId) : r.Ends id := hr.apply id

/-- Chains end if every class extends an earlier one. -/
lemma grounded_of_lt (h : ∀ a b, r.Edge a b → b.index < a.index) : r.Grounded :=
  Subrelation.wf (fun hab => h _ _ hab) (InvImage.wf ClassId.index Nat.lt_wfRel.wf)

lemma lt_size_of_get? (h : r.get? id = some cls) : id.index < r.size :=
  (Array.getElem?_eq_some_iff.mp h).1

/-! ## Registering and changing classes -/

lemma get?_insert (r : Registry) (cls : Class) (id : ClassId) :
    (r.insert cls).2.get? id = if id.index = r.size then some cls else r.get? id := by
  simp only [get?, insert, Array.getElem?_push, size]
  rfl

lemma get?_insert_of_some (h : r.get? id = some cls) (cls' : Class) :
    (r.insert cls').2.get? id = some cls := by
  have hne : id.index ≠ r.size := Nat.ne_of_lt (lt_size_of_get? h)
  rw [get?_insert, if_neg hne, h]

lemma get?_modify (r : Registry) (id other : ClassId) (f : Class → Class) :
    (r.modify id f).get? other = if id = other then (r.get? other).map f else r.get? other := by
  obtain ⟨index⟩ := id
  obtain ⟨other⟩ := other
  simp only [get?, modify, Array.getElem?_modify, ClassId.mk.injEq]

/-! ## What a search finds -/

variable {caller : Option (ClassId × String)} {side : Side} {name key : String} {owner : ClassId}
  {keys : List String} {m : Member}

/-- What is found in a class stands there, as a member or as a field. -/
lemma Found.inClass?_eq_some {found : Found} (h : Found.inClass? id cls side keys = some found) :
    ∃ key ∈ keys, (∃ m, (cls.members side).get? key = some m ∧ found = .member id m) ∨
      (cls.members side).get? key = none ∧ cls.hasField side key = true ∧ found = .field id key := by
  obtain ⟨key, hmem, hkey⟩ := List.exists_of_findSome?_eq_some h
  refine ⟨key, hmem, ?_⟩
  split at hkey
  case h_1 m hm =>
    cases hkey
    exact .inl ⟨m, hm, rfl⟩
  case h_2 hm =>
    split at hkey
    case isTrue hf =>
      cases hkey
      exact .inr ⟨hm, hf, rfl⟩
    case isFalse => cases hkey

/-- What is found stands in one of the classes of the chain, under a key that the caller can see. -/
lemma exists_of_search {found : Found} (h : r.search caller side name start = .found found) :
    ∃ id cls, r.Above start id ∧ r.get? id = some cls ∧
      Found.inClass? id cls side (r.visibleKeys caller name id) = some found := by
  unfold search at h
  generalize r.size + 1 = bound at h
  induction bound generalizing start with
  | zero => cases h
  | succ bound ih =>
    simp only [searchWithin] at h
    split at h
    · cases h
    case h_2 cls hcls =>
      split at h
      case isFalse => cases h
      case isTrue =>
      split at h
      case h_1 result hresult =>
        cases h
        exact ⟨start, cls, .refl r start, hcls, hresult⟩
      case h_2 =>
        split at h
        · cases h
        case h_2 p hp =>
          obtain ⟨id, cls', habove, hget, hfound⟩ := ih h
          exact ⟨id, cls', (Above.refl r start).parent hcls hp |>.trans habove, hget, hfound⟩

lemma field_of_search (h : r.search caller side name start = .found (.field owner key)) :
    ∃ cls, r.Above start owner ∧ r.get? owner = some cls ∧ cls.hasField side key = true ∧
      (cls.members side).get? key = none ∧ key ∈ r.visibleKeys caller name owner := by
  obtain ⟨id, cls, habove, hget, hfound⟩ := exists_of_search h
  obtain ⟨key', hkey, ⟨m, -, hm⟩ | ⟨hnone, hfield, heq⟩⟩ := Found.inClass?_eq_some hfound
  · cases hm
  · cases heq
    exact ⟨cls, habove, hget, hfield, hnone, hkey⟩

lemma member_of_search (h : r.search caller side name start = .found (.member owner m)) :
    ∃ cls key, r.Above start owner ∧ r.get? owner = some cls ∧
      (cls.members side).get? key = some m ∧ key ∈ r.visibleKeys caller name owner := by
  obtain ⟨id, cls, habove, hget, hfound⟩ := exists_of_search h
  obtain ⟨key, hkey, ⟨m', hm, heq⟩ | ⟨-, -, heq⟩⟩ := Found.inClass?_eq_some hfound
  · cases heq
    exact ⟨cls, key, habove, hget, hm, hkey⟩
  · cases heq

/-! ## Chains that end -/

lemma isChain_ancestorsWithin (r : Registry) (bound : Nat) (id : ClassId) :
    (id :: r.ancestorsWithin bound id).IsChain r.Edge := by
  induction bound generalizing id with
  | zero => exact .singleton id
  | succ bound ih =>
    simp only [ancestorsWithin]
    split
    · exact .singleton id
    next p hp => exact .cons_cons (edge_iff_parent?.mpr hp) (ih p)

/-- On a walk every class but the last extends another one. -/
lemma exists_edge_of_mem_dropLast {bound : Nat} {k : ClassId}
    (hk : k ∈ (id :: r.ancestorsWithin bound id).dropLast) : ∃ b, r.Edge k b := by
  induction bound generalizing id with
  | zero => cases hk
  | succ bound ih =>
    simp only [ancestorsWithin] at hk
    split at hk
    · cases hk
    next p hp =>
      rw [List.dropLast_cons_cons] at hk
      rcases List.mem_cons.mp hk with rfl | hk
      · exact ⟨p, edge_iff_parent?.mpr hp⟩
      · exact ih hk

/-- A chain that ends visits no class twice. -/
lemma Ends.nodup_ancestorsWithin (h : r.Ends id) (bound : Nat) :
    (id :: r.ancestorsWithin bound id).Nodup := by
  have hpairs : (id :: r.ancestorsWithin bound id).Pairwise (Relation.TransGen r.Edge) :=
    ((r.isChain_ancestorsWithin bound id).imp fun _ _ => Relation.TransGen.single).pairwise
  obtain ⟨habove, -⟩ := List.pairwise_cons.mp hpairs
  refine List.Pairwise.imp_of_mem (fun {a b} ha _ hab heq => ?_) hpairs
  subst heq
  refine Ends.not_transGen (h.above ?_) hab
  rcases List.mem_cons.mp ha with rfl | ha
  · exact .refl r a
  · exact (habove a ha).to_reflTransGen

/-- A walk that stops before its bound has come to the end. -/
lemma ends_of_length_lt {bound : Nat} (h : (r.ancestorsWithin bound id).length < bound) :
    r.Ends id := by
  induction bound generalizing id with
  | zero => cases h
  | succ bound ih =>
    refine .intro id fun b hb => ?_
    simp only [ancestorsWithin, edge_iff_parent?.mp hb, List.length_cons, Nat.add_lt_add_iff_right] at h
    exact ih h

/-- The bounded walk tells whether a chain ends. -/
theorem ends_iff : r.ends id = true ↔ r.Ends id := by
  simp only [ends, decide_eq_true_eq, ← Nat.lt_succ_iff]
  refine ⟨ends_of_length_lt, fun h => ?_⟩
  -- All the classes but the last are registered, and there are only as many different ones.
  have hnodup := h.nodup_ancestorsWithin (r.size + 1)
  have hregistered : ((id :: r.ancestors id).dropLast.map ClassId.index) ⊆ List.range r.size := by
    intro index hindex
    obtain ⟨k, hk, rfl⟩ := List.mem_map.mp hindex
    obtain ⟨b, cls, hcls, -⟩ := exists_edge_of_mem_dropLast hk
    exact List.mem_range.mpr (lt_size_of_get? hcls)
  have hdistinct : ((id :: r.ancestors id).dropLast.map ClassId.index).Nodup :=
    (hnodup.sublist (List.dropLast_sublist _)).map fun _ _ h => congrArg ClassId.mk h
  have hle := (hdistinct.subperm hregistered).length_le
  simp only [List.length_map, List.length_dropLast, List.length_cons, List.length_range] at hle
  exact Nat.lt_succ_of_le hle

/-! ## Relationship -/

/-- The class to which a number of steps leads, from parent to parent. -/
def climb (r : Registry) : (steps : Nat) → ClassId → Option ClassId
  | 0, id => some id
  | steps + 1, id => (r.parent? id).bind (r.climb steps)

lemma climb_add (r : Registry) (m n : Nat) (id : ClassId) :
    r.climb (m + n) id = (r.climb m id).bind (r.climb n) := by
  induction m generalizing id with
  | zero => simp [climb]
  | succ m ih => simp only [Nat.succ_add, climb, Option.bind_assoc, ih]

lemma exists_climb (h : Relation.TransGen r.Edge a b) : ∃ n, 0 < n ∧ r.climb n a = some b := by
  induction h using Relation.TransGen.head_induction_on with
  | single hedge => exact ⟨1, Nat.one_pos, by simp [climb, edge_iff_parent?.mp hedge]⟩
  | head hedge _ ih =>
    obtain ⟨n, -, hn⟩ := ih
    exact ⟨n + 1, n.succ_pos, by simp [climb, edge_iff_parent?.mp hedge, hn]⟩

/-- Every step starts at a registered class. -/
lemma lt_size_of_climb {n j : Nat} (h : r.climb n a = some b) (hj : j < n) :
    ∃ k, r.climb j a = some k ∧ k.index < r.size := by
  obtain ⟨m, rfl⟩ := Nat.exists_eq_add_of_lt hj
  rw [Nat.add_assoc, climb_add, Option.bind_eq_some_iff] at h
  obtain ⟨k, hk, hrest⟩ := h
  obtain ⟨p, hp, -⟩ := Option.bind_eq_some_iff.mp hrest
  obtain ⟨cls, hcls, -⟩ := edge_iff_parent?.mpr hp
  exact ⟨k, hk, lt_size_of_get? hcls⟩

/-- The shortest way up to a class visits no class twice, so it has no more steps than there are classes. -/
lemma exists_climb_le (h : Relation.TransGen r.Edge a b) :
    ∃ n, 0 < n ∧ n ≤ r.size ∧ r.climb n a = some b := by
  have hways := exists_climb h
  obtain ⟨hpos, hfound⟩ := Nat.find_spec hways
  have hshortest : ∀ m < Nat.find hways, 0 < m → r.climb m a ≠ some b :=
    fun m hm hpos hfound => Nat.find_min hways hm ⟨hpos, hfound⟩
  generalize Nat.find hways = n at hpos hfound hshortest
  have hdistinct : ∀ i j, i < j → j < n → r.climb i a ≠ r.climb j a := by
    intro i j hij hj heq
    refine hshortest (i + (n - j)) (by omega) (by omega) ?_
    rw [climb_add, heq, ← climb_add, Nat.add_sub_cancel' (Nat.le_of_lt hj), hfound]
  have hinj : Set.InjOn (r.climb · a) (Finset.range n) := by
    intro i hi j hj hsame
    rw [Finset.mem_coe, Finset.mem_range] at hi hj
    rcases Nat.lt_trichotomy i j with hlt | heq | hlt
    · exact absurd hsame (hdistinct i j hlt hj)
    · exact heq
    · exact absurd hsame.symm (hdistinct j i hlt hi)
  have hmaps : ∀ j ∈ Finset.range n, r.climb j a ∈ (Finset.range r.size).image (some ⟨·⟩) := by
    intro j hj
    obtain ⟨k, hk, hlt⟩ := lt_size_of_climb hfound (Finset.mem_range.mp hj)
    exact Finset.mem_image.mpr ⟨k.index, Finset.mem_range.mpr hlt, hk.symm⟩
  have hle := (Finset.card_le_card_of_injOn _ hmaps hinj).trans Finset.card_image_le
  rw [Finset.card_range, Finset.card_range] at hle
  exact ⟨n, hpos, hle, hfound⟩

lemma mem_ancestorsWithin_of_climb {n bound : Nat} (h : r.climb n a = some b) (hpos : 0 < n)
    (hle : n ≤ bound) : b ∈ r.ancestorsWithin bound a := by
  induction bound generalizing a n with
  | zero => omega
  | succ bound ih =>
    obtain ⟨n, rfl⟩ := Nat.exists_eq_succ_of_ne_zero hpos.ne'
    obtain ⟨p, hp, hrest⟩ := Option.bind_eq_some_iff.mp h
    simp only [ancestorsWithin, hp, List.mem_cons]
    rcases Nat.eq_zero_or_pos n with rfl | hn
    · exact .inl (Option.some.inj hrest).symm
    · exact .inr (ih hrest hn (Nat.le_of_succ_le_succ hle))

/-- The bounded walk finds all the classes above. -/
theorem mem_ancestors_iff : b ∈ r.ancestors a ↔ Relation.TransGen r.Edge a b := by
  constructor
  · have hpairs : (a :: r.ancestors a).Pairwise (Relation.TransGen r.Edge) :=
      ((r.isChain_ancestorsWithin _ a).imp fun _ _ => Relation.TransGen.single).pairwise
    exact (List.pairwise_cons.mp hpairs).1 b
  · intro h
    obtain ⟨n, hpos, hle, hn⟩ := exists_climb_le h
    exact mem_ancestorsWithin_of_climb hn hpos (Nat.le_succ_of_le hle)

lemma isExtendedFrom_eq_true : r.isExtendedFrom a b = some true ↔ Relation.TransGen r.Edge a b := by
  rw [← mem_ancestors_iff]
  simp only [isExtendedFrom, List.contains_iff_mem]
  split
  next h => simp [h]
  next h => split <;> simp [h]

lemma isExtendedFrom_eq_false :
    r.isExtendedFrom a b = some false ↔ r.Ends a ∧ ¬Relation.TransGen r.Edge a b := by
  rw [← mem_ancestors_iff, ← ends_iff]
  simp only [isExtendedFrom, List.contains_iff_mem]
  split
  next h => simp [h]
  next h => split <;> simp_all

/-- Whether a class is derived from another one can be told if its chain ends. -/
lemma isSome_isExtendedFrom (h : r.Ends a) (b : ClassId) : (r.isExtendedFrom a b).isSome = true := by
  simp only [isExtendedFrom, ends_iff.mpr h, if_true]
  split <;> rfl

/-- Classes are related if one of them is above the other. -/
lemma isRelated_eq_true (ha : r.Ends a) :
    r.isRelated a b = some true ↔ r.Above a b ∨ r.Above b a := by
  have hanswer : r.isRelated a b = some true ↔
      a = b ∨ r.isExtendedFrom a b = some true ∨ r.isExtendedFrom b a = some true := by
    obtain ⟨answer, hup⟩ := Option.isSome_iff_exists.mp (isSome_isExtendedFrom ha b)
    unfold isRelated
    split
    next heq => simp [heq]
    next hne => cases answer <;> simp [hup, hne]
  rw [hanswer, isExtendedFrom_eq_true, isExtendedFrom_eq_true]
  simp only [Above, Relation.reflTransGen_iff_eq_or_transGen, eq_comm (a := b)]
  tauto

lemma isSome_isRelated (ha : r.Ends a) (hb : r.Ends b) : (r.isRelated a b).isSome = true := by
  have hup := isSome_isExtendedFrom ha b
  unfold isRelated
  split
  · rfl
  · split
    · exact isSome_isExtendedFrom hb a
    · exact hup

lemma settles_of_ends (hcaller : ∀ k ∈ caller.map (·.1), r.Ends k) (h : r.Ends id) :
    r.settles caller id = true := by
  cases caller with
  | none => rfl
  | some k => exact isSome_isRelated (hcaller k.1 rfl) h

/-! ## Searches that do not end -/

lemma searchWithin_ne_endless {bound : Nat} (hcaller : ∀ k ∈ caller.map (·.1), r.Ends k)
    (hstart : r.Ends start) (hbound : (r.ancestorsWithin bound start).length < bound) :
    r.searchWithin caller side name bound start ≠ .endless := by
  induction bound generalizing start with
  | zero => cases hbound
  | succ bound ih =>
    simp only [searchWithin]
    split
    · exact nofun
    next cls hcls =>
      rw [if_pos (settles_of_ends hcaller hstart)]
      split
      · exact nofun
      · split
        · exact nofun
        next p hp =>
          have hedge : r.Edge start p := ⟨cls, hcls, hp⟩
          simp only [ancestorsWithin, edge_iff_parent?.mp hedge, List.length_cons,
            Nat.add_lt_add_iff_right] at hbound
          exact ih (hstart.inv hedge) hbound

/-- A search ends if the chains of its start and of the caller do. -/
theorem search_ne_endless (hcaller : ∀ k ∈ caller.map (·.1), r.Ends k) (hstart : r.Ends start) :
    r.search caller side name start ≠ .endless := by
  have hends := ends_iff.mpr hstart
  simp only [ends, decide_eq_true_eq] at hends
  exact searchWithin_ne_endless hcaller hstart (Nat.lt_succ_of_le hends)

end Registry

end ScriptLang
