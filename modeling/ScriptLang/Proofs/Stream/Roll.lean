/-
Groups of branches, seen from outside.

What a group stores can be told from little: the units that its source gives out, how many of them
were pulled, and the position at which each member stands.  The pending units of a member are then
the units between its position and the last one pulled.  This file says so once, for any source whose
answers are known (`Supply`), and then says what each operation on a branch does to the positions.

The main definitions are

* `Supply`: a source that gives out the units of a list and then comes to its end or fails;
* `Roll`: the members of a group with the positions at which they stand;
* `Supply.Follows`: a group that stores what a roll and the number of pulled units say.

Each operation of `Branch` has one lemma, named after it.
-/
import ScriptLang.Proofs.Outcome
import ScriptLang.Stream.Branch

namespace ScriptLang

variable {σ α : Type}

/-! ## Sources with known answers -/

/-- What a source answers after its last unit. -/
def ending : Option LexicalError → Except LexicalError (Option α)
  | none => .ok none
  | some e => .error e

/-- What a reader at position `p` sees, if `units` are followed by `stop`. -/
def lookAt (units : List α) (stop : Option LexicalError) (p : Nat) :
    Except LexicalError (Option α) :=
  match units[p]? with
  | some u => .ok (some u)
  | none => ending stop

lemma lookAt_of_lt {units : List α} {stop : Option LexicalError} {p : Nat} (h : p < units.length) :
    lookAt units stop p = .ok (some units[p]) := by
  simp [lookAt, h]

lemma lookAt_eq_ending {units : List α} {stop : Option LexicalError} {p : Nat}
    (h : p = units.length) : lookAt units stop p = ending stop := by
  simp [lookAt, h]

lemma lookAt_eq_error_iff {units : List α} {stop : Option LexicalError} {p : Nat}
    {e : LexicalError} :
    lookAt units stop p = .error e ↔ units.length ≤ p ∧ stop = some e := by
  rw [← List.getElem?_eq_none_iff]
  cases hu : units[p]? with
  | none => cases stop <;> simp [lookAt, hu, ending]
  | some u => simp [lookAt, hu]

/-- A source that gives out `units` one after the other, and after them `stop`, however often it is
asked. -/
structure Supply (σ : Type) {α : Type} [Source σ α] (units : List α)
    (stop : Option LexicalError) where
  /-- `At q s` says that `s` is the source from which `q` units were pulled. -/
  At : Nat → σ → Prop
  pull_unit : ∀ {q s} (h : q < units.length), At q s →
    ∃ s', Source.pull s = (.ok (some units[q]), s') ∧ At (q + 1) s'
  pull_stop : ∀ {s}, At units.length s →
    ∃ s', Source.pull s = (ending stop, s') ∧ At units.length s'

/-! ## Rolls -/

/-- The members of a group by number, each with the position at which it stands. -/
abbrev Roll := List (Nat × Nat)

namespace Roll

/-- The numbers of the members. -/
def ids (roll : Roll) : List Nat := roll.map Prod.fst

/-- The roll after the member `id` has moved to `p`. -/
def moved (roll : Roll) (id p : Nat) : Roll :=
  roll.map fun m => if m.1 = id then (id, p) else m

/-- The roll after the member `id` has left. -/
def without (roll : Roll) (id : Nat) : Roll := roll.filter fun m => m.1 ≠ id

variable {roll roll' : Roll} {id p : Nat}

@[simp] lemma ids_append : ids (roll ++ roll') = roll.ids ++ roll'.ids := by
  simp [ids]

lemma mem_ids_of_mem (h : (id, p) ∈ roll) : id ∈ roll.ids := List.mem_map_of_mem h

@[simp] lemma ids_moved (roll : Roll) (id p : Nat) : (roll.moved id p).ids = roll.ids := by
  simp only [ids, moved, List.map_map]
  refine List.map_congr_left fun m _ => ?_
  by_cases hm : m.1 = id <;> simp [hm]

@[simp] lemma moved_append (roll roll' : Roll) (id p : Nat) :
    moved (roll ++ roll') id p = roll.moved id p ++ roll'.moved id p := by
  simp [moved]

lemma moved_of_notMem (h : id ∉ roll.ids) : roll.moved id p = roll := by
  have hself : ∀ m ∈ roll, (if m.1 = id then (id, p) else m) = m := by
    intro m hm
    rw [if_neg]
    rintro rfl
    exact h (List.mem_map_of_mem hm)
  rw [moved, List.map_congr_left hself, List.map_id']

@[simp] lemma moved_single_self (id p p' : Nat) : moved [(id, p)] id p' = [(id, p')] := by
  simp [moved]

lemma moved_single_of_ne {id' p' : Nat} (h : id' ≠ id) : moved [(id', p')] id p = [(id', p')] := by
  simp [moved, h]

@[simp] lemma moved_moved (roll : Roll) (id p p' : Nat) :
    (roll.moved id p).moved id p' = roll.moved id p' := by
  simp only [moved, List.map_map]
  refine List.map_congr_left fun m _ => ?_
  by_cases hm : m.1 = id <;> simp [hm]

/-- A member that moves to where it stands leaves the roll as it is. -/
lemma moved_self (hd : roll.ids.Nodup) (h : (id, p) ∈ roll) : roll.moved id p = roll := by
  obtain ⟨l, r, rfl⟩ := List.append_of_mem h
  simp only [ids, List.map_append, List.map_cons, List.nodup_append, List.nodup_cons] at hd
  obtain ⟨-, ⟨hr, -⟩, hl⟩ := hd
  have hl' : id ∉ ids l := fun hm => hl id hm id (by simp) rfl
  have hr' : id ∉ ids r := hr
  rw [moved_append, moved_of_notMem hl', show (id, p) :: r = [(id, p)] ++ r from rfl,
    moved_append, moved_of_notMem hr']
  simp [moved]

lemma mem_moved_self (h : id ∈ roll.ids) : (id, p) ∈ roll.moved id p := by
  obtain ⟨m, hm, rfl⟩ := List.mem_map.mp h
  exact List.mem_map.mpr ⟨m, hm, by simp⟩

lemma mem_moved_of_ne {m : Nat × Nat} (h : m.1 ≠ id) : m ∈ roll.moved id p ↔ m ∈ roll := by
  simp only [moved, List.mem_map]
  constructor
  · rintro ⟨n, hn, rfl⟩
    by_cases hid : n.1 = id
    · simp [hid] at h
    · simpa [hid] using hn
  · exact fun hm => ⟨m, hm, by simp [h]⟩

lemma mem_moved {m : Nat × Nat} (h : m ∈ roll.moved id p) : m = (id, p) ∨ m ∈ roll := by
  by_cases hm : m.1 = id
  · simp only [moved, List.mem_map] at h
    obtain ⟨n, hn, rfl⟩ := h
    by_cases hid : n.1 = id
    · exact Or.inl (by simp [hid])
    · exact Or.inr (by simpa [hid] using hn)
  · exact Or.inr ((mem_moved_of_ne hm).mp h)

@[simp] lemma without_append (roll roll' : Roll) (id : Nat) :
    without (roll ++ roll') id = roll.without id ++ roll'.without id := by
  simp [without]

lemma without_of_notMem (h : id ∉ roll.ids) : roll.without id = roll := by
  rw [without, List.filter_eq_self]
  intro m hm
  simp only [ne_eq, decide_not, Bool.not_eq_eq_eq_not, Bool.not_true, decide_eq_false_iff_not]
  rintro rfl
  exact h (List.mem_map_of_mem hm)

@[simp] lemma without_single (id p : Nat) : without [(id, p)] id = [] := by
  simp [without]

lemma without_single_of_ne {id' p' : Nat} (h : id' ≠ id) :
    without [(id', p')] id = [(id', p')] := by
  simp [without, h]

lemma mem_without {m : Nat × Nat} : m ∈ roll.without id ↔ m ∈ roll ∧ m.1 ≠ id := by
  simp [without]

end Roll

/-! ## Groups that follow a roll -/

variable [Source σ α] {units : List α} {stop : Option LexicalError}

/-- The group `g` stores what there is to store after `q` units were pulled, if its members stand
where `roll` says. -/
structure Supply.Follows (F : Supply σ units stop) (g : Group σ α) (q : Nat) (roll : Roll) :
    Prop where
  source : roll ≠ [] → ∃ s, g.source = some s ∧ F.At q s
  released : roll = [] → g.source = none
  members : g.members = roll.map fun m => (m.1, (units.take q).drop m.2)
  distinct : roll.ids.Nodup
  known : ∀ id ∈ roll.ids, id < g.nextId
  reached : ∀ m ∈ roll, m.2 ≤ q
  pulled : q ≤ units.length

/-- The place after the first `p` units. -/
def placeAt (σ : Type) [Source σ α] (units : List α) (p : Nat) : Position :=
  (units.take p).foldl (fun place u => Source.after σ u place) Position.start

/-- The branch that stands at `p` and is otherwise `b`. -/
def Branch.movedTo (σ : Type) [Source σ α] (units : List α) (b : Branch) (p : Nat) : Branch :=
  { b with position := p, place := placeAt σ units p }

/-- The branch `b` has not left its group and is on its roll. -/
structure Branch.On (σ : Type) [Source σ α] (units : List α) (b : Branch) (roll : Roll) :
    Prop where
  alive : b.disposed = false
  listed : (b.id, b.position) ∈ roll
  place : b.place = placeAt σ units b.position

lemma placeAt_zero (σ : Type) [Source σ α] (units : List α) :
    placeAt σ units 0 = Position.start := rfl

lemma placeAt_succ (σ : Type) [Source σ α] {units : List α} {p : Nat} (h : p < units.length) :
    placeAt σ units (p + 1) = Source.after σ units[p] (placeAt σ units p) := by
  rw [placeAt, List.take_succ_eq_append_getElem h, List.foldl_append]
  rfl

namespace Branch

variable {b : Branch} {roll : Roll} {p : Nat}

@[simp] lemma movedTo_id : (b.movedTo σ units p).id = b.id := rfl

@[simp] lemma movedTo_position : (b.movedTo σ units p).position = p := rfl

@[simp] lemma movedTo_movedTo {p' : Nat} :
    (b.movedTo σ units p).movedTo σ units p' = b.movedTo σ units p' := rfl

lemma On.movedTo_self (h : b.On σ units roll) : b.movedTo σ units b.position = b := by
  rw [movedTo, ← h.place]

lemma On.moved (h : b.On σ units roll) (p : Nat) :
    (b.movedTo σ units p).On σ units (roll.moved b.id p) :=
  ⟨h.alive, Roll.mem_moved_self (Roll.mem_ids_of_mem h.listed), rfl⟩

/-- A branch stays on the roll when another one moves or leaves. -/
lemma On.moved_of_ne {id : Nat} (h : b.On σ units roll) (hne : b.id ≠ id) (p : Nat) :
    b.On σ units (roll.moved id p) :=
  ⟨h.alive, (Roll.mem_moved_of_ne hne).mpr h.listed, h.place⟩

lemma On.without_of_ne {id : Nat} (h : b.On σ units roll) (hne : b.id ≠ id) :
    b.On σ units (roll.without id) :=
  ⟨h.alive, Roll.mem_without.mpr ⟨h.listed, hne⟩, h.place⟩

lemma On.append (h : b.On σ units roll) (roll' : Roll) : b.On σ units (roll ++ roll') :=
  ⟨h.alive, List.mem_append_left _ h.listed, h.place⟩

end Branch

namespace Supply.Follows

variable {F : Supply σ units stop} {g : Group σ α} {q id p : Nat} {roll : Roll}

lemma pending_eq (h : F.Follows g q roll) (hm : (id, p) ∈ roll) :
    g.pending id = (units.take q).drop p := by
  obtain ⟨l, r, rfl⟩ := List.append_of_mem hm
  have hl : ∀ m ∈ l, m.1 ≠ id := by
    intro m hml hid
    have hd := h.distinct
    simp only [Roll.ids, List.map_append, List.map_cons, List.nodup_append] at hd
    exact hd.2.2 m.1 (List.mem_map_of_mem hml) id (by simp) hid
  have hlook : g.members.lookup id = some ((units.take q).drop p) := by
    rw [h.members, List.lookup_eq_some_iff]
    refine ⟨l.map _, r.map _, by simp; rfl, ?_⟩
    intro m hm
    obtain ⟨n, hn, rfl⟩ := List.mem_map.mp hm
    simpa [bne_iff_ne] using (hl n hn).symm
  rw [Group.pending, hlook, Option.getD_some]

lemma map_fst_members (h : F.Follows g q roll) : g.members.map Prod.fst = roll.ids := by
  rw [h.members, List.map_map]
  rfl

lemma position_le {b : Branch} (h : F.Follows g q roll) (hb : b.On σ units roll) :
    b.position ≤ units.length :=
  Nat.le_trans (h.reached _ hb.listed) h.pulled

/-- Giving a member the pending units of another position moves it there. -/
lemma setPending (h : F.Follows g q roll) (id : Nat) (hp : p ≤ q) :
    F.Follows (g.setPending id ((units.take q).drop p)) q (roll.moved id p) where
  source hne := h.source (by rintro rfl; exact hne rfl)
  released hnil := h.released (List.map_eq_nil_iff.mp hnil)
  members := by
    simp only [Group.setPending, h.members, Roll.moved, List.map_map]
    refine List.map_congr_left fun m _ => ?_
    by_cases hm : m.1 = id <;> simp [hm]
  distinct := by rw [Roll.ids_moved]; exact h.distinct
  known := by rw [Roll.ids_moved]; exact h.known
  reached m hm := by
    rcases Roll.mem_moved hm with rfl | hm
    · exact hp
    · exact h.reached m hm
  pulled := h.pulled

/-- Pushing the next unit keeps every member where it stands. -/
lemma push {s : σ} (h : F.Follows g q roll) (hq : q < units.length) (hs : F.At (q + 1) s)
    (hne : roll ≠ []) :
    F.Follows (Group.push { g with source := some s } units[q]) (q + 1) roll where
  source _ := ⟨s, rfl, hs⟩
  released hnil := absurd hnil hne
  members := by
    simp only [Group.push, h.members, List.map_map]
    refine List.map_congr_left fun m hm => ?_
    have hle : m.2 ≤ (units.take q).length := by
      simpa [Nat.min_eq_left h.pulled] using h.reached m hm
    simp only [Function.comp_apply, List.take_succ_eq_append_getElem hq,
      List.drop_append_of_le_length hle]
  distinct := h.distinct
  known := h.known
  reached m hm := Nat.le_succ_of_le (h.reached m hm)
  pulled := hq

/-- A source that has nothing more to give leaves the group as it is. -/
lemma withSource {s : σ} (h : F.Follows g q roll) (hs : F.At q s) (hne : roll ≠ []) :
    F.Follows { g with source := some s } q roll where
  source _ := ⟨s, rfl, hs⟩
  released hnil := absurd hnil hne
  members := h.members
  distinct := h.distinct
  known := h.known
  reached := h.reached
  pulled := h.pulled

lemma join (h : F.Follows g q roll) (hm : (id, p) ∈ roll) :
    F.Follows (g.join ((units.take q).drop p)) q (roll ++ [(g.nextId, p)]) where
  source _ := h.source (List.ne_nil_of_mem hm)
  released hnil := absurd hnil (by simp)
  members := by simp [Group.join, h.members]
  distinct := by
    have hnew : g.nextId ∉ roll.ids := fun hmem => Nat.lt_irrefl _ (h.known _ hmem)
    simp only [Roll.ids_append, List.nodup_append]
    refine ⟨h.distinct, by simp [Roll.ids], ?_⟩
    intro a ha b hb hab
    simp only [Roll.ids, List.map_cons, List.map_nil, List.mem_singleton] at hb
    exact hnew (hb ▸ hab ▸ ha)
  known a ha := by
    simp only [Roll.ids_append, List.mem_append] at ha
    rcases ha with ha | ha
    · exact Nat.lt_succ_of_lt (h.known a ha)
    · simp only [Roll.ids, List.map_cons, List.map_nil, List.mem_singleton] at ha
      simp [Group.join, ha]
  reached m hm' := by
    rcases List.mem_append.mp hm' with hm' | hm'
    · exact h.reached m hm'
    · obtain rfl := List.mem_singleton.mp hm'
      exact h.reached (id, p) hm
  pulled := h.pulled

lemma leave (h : F.Follows g q roll) : F.Follows (g.leave id) q (roll.without id) := by
  have hmem : (g.leave id).members =
      (roll.without id).map fun m => (m.1, (units.take q).drop m.2) := by
    simp only [Group.leave, h.members, List.filter_map, Roll.without]
    rfl
  have hsub : ∀ a ∈ (roll.without id).ids, a ∈ roll.ids := by
    intro a ha
    obtain ⟨m, hm, rfl⟩ := List.mem_map.mp ha
    exact List.mem_map_of_mem (Roll.mem_without.mp hm).1
  have hempty : (g.leave id).source =
      if (g.leave id).members.isEmpty then none else g.source := rfl
  rw [hmem, List.isEmpty_map] at hempty
  constructor
  · intro hne
    rw [hempty, if_neg (by simpa using hne)]
    exact h.source (by rintro rfl; exact hne rfl)
  · intro hnil
    rw [hempty, hnil]
    rfl
  · exact hmem
  · exact h.distinct.sublist (List.filter_sublist.map _)
  · exact fun a ha => h.known a (hsub a ha)
  · exact fun m hm => h.reached m (Roll.mem_without.mp hm).1
  · exact h.pulled

end Supply.Follows

/-! ## The operations on a branch -/

-- With these two, `simp` carries out the operations where they check that a branch is alive and where the
-- source has come to its end.
@[simp] lemma run_ofExcept_ok {ε S β : Type} (a : β) (s : S) :
    (ofExcept (Except.ok a) : EStateM ε S β).run s = .ok a s := rfl

@[simp] lemma run_ofExcept_error {ε S β : Type} (e : ε) (s : S) :
    (ofExcept (Except.error e) : EStateM ε S β).run s = .error e s := rfl

namespace Branch

variable {F : Supply σ units stop} {g : Group σ α} {q : Nat} {roll : Roll} {b c : Branch}

/-- A branch with pending units pulls nothing. -/
lemma fill_of_lt (h : F.Follows g q roll) (hb : b.On σ units roll) (hlt : b.position < q) :
    b.fill.run g = .ok () g := by
  have hne : g.pending b.id ≠ [] := by
    rw [h.pending_eq hb.listed, ne_eq, List.drop_eq_nil_iff, List.length_take]
    have hq := h.pulled
    omega
  simp [fill, hne]

/-- A branch with nothing pending pulls the next unit, which then is pending for every member. -/
lemma fill_of_eq (h : F.Follows g q roll) (hb : b.On σ units roll) (heq : b.position = q)
    (hlt : q < units.length) :
    ∃ g', b.fill.run g = .ok () g' ∧ F.Follows g' (q + 1) roll := by
  have hne : roll ≠ [] := List.ne_nil_of_mem hb.listed
  obtain ⟨s, hs, hat⟩ := h.source hne
  obtain ⟨s', hpull, hat'⟩ := F.pull_unit hlt hat
  refine ⟨_, ?_, h.push hlt hat' hne⟩
  have hnil : g.pending b.id = [] := by
    rw [h.pending_eq hb.listed, heq]
    exact List.drop_eq_nil_of_le (List.length_take_le _ _)
  simp [fill, hnil, hs, hpull]

/-- A branch at the end of the source learns how the source ends. -/
lemma fill_of_end (h : F.Follows g q roll) (hb : b.On σ units roll)
    (hend : b.position = units.length) :
    ∃ g', b.fill.run g = (ofExcept ((ending stop).map fun _ : Option α => ()) : Walk σ α Unit).run g' ∧
      F.Follows g' q roll := by
  have hne : roll ≠ [] := List.ne_nil_of_mem hb.listed
  have hq : q = units.length := Nat.le_antisymm h.pulled (hend ▸ h.reached _ hb.listed)
  obtain ⟨s, hs, hat⟩ := h.source hne
  obtain ⟨s', hpull, hat'⟩ := F.pull_stop (hq ▸ hat)
  refine ⟨_, ?_, h.withSource (hq ▸ hat') hne⟩
  have hnil : g.pending b.id = [] := by
    rw [h.pending_eq hb.listed, hend, ← hq]
    exact List.drop_eq_nil_of_le (List.length_take_le _ _)
  cases stop with
  | none => simp [fill, hnil, hs, hpull, ending, Except.map]
  | some e => simp [fill, hnil, hs, hpull, ending, Except.map]

/-- Afterwards the branch has a unit pending, unless it stands at the end. -/
lemma fill_spec (h : F.Follows g q roll) (hb : b.On σ units roll) :
    ∃ g', b.fill.run g =
        (ofExcept ((lookAt units stop b.position).map fun _ => ()) : Walk σ α Unit).run g' ∧
      F.Follows g' (max q (min (b.position + 1) units.length)) roll := by
  have hle : b.position ≤ q := h.reached _ hb.listed
  have hq : q ≤ units.length := h.pulled
  by_cases hend : b.position = units.length
  · rw [show max q (min (b.position + 1) units.length) = q by omega, lookAt_eq_ending hend]
    exact fill_of_end h hb hend
  · have hlt : b.position < units.length := by omega
    rw [lookAt_of_lt hlt]
    by_cases heq : b.position = q
    · rw [show max q (min (b.position + 1) units.length) = q + 1 by omega]
      exact fill_of_eq h hb heq (heq ▸ hlt)
    · rw [show max q (min (b.position + 1) units.length) = q by omega]
      exact ⟨g, fill_of_lt h hb (by omega), h⟩

/-- What a branch that is not at the end has pending, once it is filled. -/
lemma pending_of_lt (h : F.Follows g q roll) (hb : b.On σ units roll) (hlt : b.position < q) :
    ∃ hu : b.position < units.length,
      g.pending b.id = units[b.position] :: (units.take q).drop (b.position + 1) := by
  have hq := h.pulled
  have hlt' : b.position < (units.take q).length := by rw [List.length_take]; omega
  refine ⟨by omega, ?_⟩
  rw [h.pending_eq hb.listed, List.drop_eq_getElem_cons hlt', List.getElem_take]

lemma pending_of_end (h : F.Follows g q roll) (hb : b.On σ units roll)
    (hend : b.position = units.length) : g.pending b.id = [] := by
  rw [h.pending_eq hb.listed, hend]
  exact List.drop_eq_nil_of_le (List.length_take_le' _ _)

lemma ensureAlive_of_on (hb : b.On σ units roll) : b.ensureAlive = .ok () := by
  simp [ensureAlive, hb.alive]

/-- A branch sees the unit at its position, or how the source ends, and nobody moves. -/
lemma peek_spec (h : F.Follows g q roll) (hb : b.On σ units roll) :
    ∃ g', b.peek.run g =
        (ofExcept (lookAt units stop b.position) : Walk σ α (Option α)).run g' ∧
      F.Follows g' (max q (min (b.position + 1) units.length)) roll := by
  obtain ⟨g', hfill, hg'⟩ := fill_spec h hb
  refine ⟨g', ?_, hg'⟩
  by_cases hend : b.position = units.length
  · rw [lookAt_eq_ending hend] at hfill ⊢
    have hnil := pending_of_end hg' hb hend
    cases stop with
    | none => simp [peek, ensureAlive_of_on hb, hfill, ending, Except.map, hnil, -bind_pure_comp]
    | some e => simp [peek, ensureAlive_of_on hb, hfill, ending, Except.map]
  · have hlt : b.position < units.length := Nat.lt_of_le_of_ne (h.position_le hb) hend
    obtain ⟨hu, hpend⟩ := pending_of_lt hg' hb (by omega)
    rw [lookAt_of_lt hlt] at hfill ⊢
    simp [peek, ensureAlive_of_on hb, hfill, Except.map, hpend, -bind_pure_comp]

/-- A branch that is not at the end reads the unit at its position and moves by one. -/
lemma read_of_lt (h : F.Follows g q roll) (hb : b.On σ units roll)
    (hlt : b.position < units.length) :
    ∃ g', b.read.run g =
        .ok (some units[b.position], b.movedTo σ units (b.position + 1)) g' ∧
      F.Follows g' (max q (b.position + 1)) (roll.moved b.id (b.position + 1)) := by
  obtain ⟨g', hfill, hg'⟩ := fill_spec h hb
  rw [show min (b.position + 1) units.length = b.position + 1 by omega] at hg'
  rw [lookAt_of_lt hlt] at hfill
  obtain ⟨hu, hpend⟩ := pending_of_lt hg' hb (by omega)
  refine ⟨_, ?_, hg'.setPending b.id (Nat.le_max_right _ _)⟩
  simp [read, ensureAlive_of_on hb, hfill, Except.map, hpend, movedTo, placeAt_succ σ hlt, hb.place,
    -bind_pure_comp]

/-- A branch at the end reads nothing and stays. -/
lemma read_of_end (h : F.Follows g q roll) (hb : b.On σ units roll)
    (hend : b.position = units.length) :
    ∃ g', b.read.run g =
        (ofExcept ((ending stop).map fun u => (u, b)) : Walk σ α (Option α × Branch)).run g' ∧
      F.Follows g' q roll := by
  obtain ⟨g', hfill, hg'⟩ := fill_of_end h hb hend
  have hnil := pending_of_end hg' hb hend
  refine ⟨g', ?_, hg'⟩
  cases stop with
  | none => simp [read, ensureAlive_of_on hb, hfill, ending, Except.map, hnil]
  | some e => simp [read, ensureAlive_of_on hb, hfill, ending, Except.map]

/-- Units that were pulled already are read without the help of the source. -/
lemma readMany_spec (h : F.Follows g q roll) (hb : b.On σ units roll) (n : Nat)
    (hn : b.position + n ≤ q) :
    ∃ g', (b.readMany n).run g =
        .ok ((units.drop b.position).take n, b.movedTo σ units (b.position + n)) g' ∧
      F.Follows g' q (roll.moved b.id (b.position + n)) := by
  induction n generalizing b g roll with
  | zero =>
    refine ⟨g, ?_, ?_⟩
    · simp [readMany, hb.movedTo_self]
    · rw [Nat.add_zero, Roll.moved_self h.distinct hb.listed]
      exact h
  | succ n ih =>
    have hlt : b.position < units.length := by have hq := h.pulled; omega
    obtain ⟨g₁, hread, hg₁⟩ := read_of_lt h hb hlt
    rw [show max q (b.position + 1) = q by omega] at hg₁
    obtain ⟨g₂, hmany, hg₂⟩ := ih hg₁ (hb.moved (b.position + 1)) (by simp; omega)
    simp only [movedTo_position, movedTo_id, movedTo_movedTo, Roll.moved_moved] at hmany hg₂
    rw [show b.position + 1 + n = b.position + (n + 1) by omega] at hmany hg₂
    refine ⟨g₂, ?_, hg₂⟩
    rw [List.drop_eq_getElem_cons hlt, List.take_succ_cons]
    simp [readMany, hread, hmany, -bind_pure_comp]

lemma sameRoot_of_on (hb : b.On σ units roll) (hc : c.On σ units roll) :
    b.sameRoot c = .ok (b.root == c.root) := by
  simp [sameRoot, ensureAlive_of_on hb, ensureAlive_of_on hc, bind, Except.bind, pure, Except.pure]

/-- Two branches are compared only if neither has left. -/
lemma sameRoot_of_dead {e : LexicalError}
    (h : b.ensureAlive = .error e ∨ b.ensureAlive = .ok () ∧ c.ensureAlive = .error e) :
    b.sameRoot c = .error e := by
  rcases h with h | ⟨h, h'⟩
  · rw [sameRoot, h]
    rfl
  · rw [sameRoot, h, h']
    rfl

/-- A branch moves to where another one stands, and tells what it went over if it went forward.
The units in between were pulled when the other branch read them. -/
lemma merge_spec (h : F.Follows g q roll) (hb : b.On σ units roll) (hc : c.On σ units roll)
    (hroot : b.root = c.root) :
    ∃ g', (b.merge c).run g =
        .ok (if b.position ≤ c.position then
            some ((units.drop b.position).take (c.position - b.position)) else none,
          b.movedTo σ units c.position) g' ∧
      F.Follows g' q (roll.moved b.id c.position) := by
  have hcq : c.position ≤ q := h.reached _ hc.listed
  by_cases hle : b.position ≤ c.position
  · obtain ⟨g', hmany, hg'⟩ := readMany_spec h hb (c.position - b.position) (by omega)
    rw [show b.position + (c.position - b.position) = c.position by omega] at hmany hg'
    refine ⟨g', ?_, hg'⟩
    simp [merge, sameRoot_of_on hb hc, hroot, hle, hmany, -bind_pure_comp]
  · refine ⟨_, ?_, h.setPending b.id hcq⟩
    rw [← h.pending_eq hc.listed]
    simp [merge, sameRoot_of_on hb hc, hroot, hle, movedTo, hc.place, -bind_pure_comp]

/-- A fork stands where the branch stands, under a number that is not on the roll. -/
lemma fork_spec (h : F.Follows g q roll) (hb : b.On σ units roll) :
    ∃ g', b.fork.run g = .ok { b with id := g.nextId } g' ∧
      F.Follows g' q (roll ++ [(g.nextId, b.position)]) ∧ g.nextId ∉ roll.ids ∧
      Branch.On σ units { b with id := g.nextId } (roll ++ [(g.nextId, b.position)]) := by
  refine ⟨_, ?_, h.join hb.listed, fun hmem => Nat.lt_irrefl _ (h.known _ hmem), ?_⟩
  · rw [← h.pending_eq hb.listed]
    simp [fork, ensureAlive_of_on hb, -bind_pure_comp]
  · exact ⟨hb.alive, by simp, hb.place⟩

lemma release_spec (h : F.Follows g q roll) (hb : b.On σ units roll) :
    b.release.run g = .ok { b with disposed := true } (g.leave b.id) ∧
      F.Follows (g.leave b.id) q (roll.without b.id) := by
  refine ⟨?_, h.leave⟩
  simp [release, hb.alive, -bind_pure_comp]

lemma dispose_spec (h : F.Follows g q roll) (hb : b.On σ units roll) :
    b.dispose.run g = .ok { b with disposed := true } (g.leave b.id) ∧
      F.Follows (g.leave b.id) q (roll.without b.id) := by
  refine ⟨?_, h.leave⟩
  simp [dispose, ensureAlive_of_on hb, (release_spec h hb).1]

end Branch

end ScriptLang
