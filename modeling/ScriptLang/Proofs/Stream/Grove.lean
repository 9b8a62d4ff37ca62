/-
Branches in use: every order of requests.

A grove is a group together with the branches that its user holds.  The user asks for one operation
after the other, on any of the branches, and may drop branches on the way.  What the user sees does
not tell that the branches share a source: each of them behaves as a cursor of its own over the units
of the source (`Grove.promised`), whatever was asked before.

The argument is a simulation.  `Grove.Sound` ties the stored units to the positions of the branches,
`Grove.Sound.ask_spec` shows that one request keeps it and gives the promised answer, and
`Grove.Sound.after` carries it over all the requests.
-/
import ScriptLang.Proofs.Stream.Roll

namespace ScriptLang

/-- A group with the branches in the hands of its user.  A slot is empty once its branch was
dropped. -/
structure Grove (σ α : Type) where
  /-- The group of the branches. -/
  group : Group σ α
  /-- The branches by slot. -/
  held : List (Option Branch)

namespace Grove

/-- What the user of a grove can ask for.  The numbers are slots. -/
inductive Request where
  | peek (i : Nat)
  | read (i : Nat)
  | fork (i : Nat)
  | sameRoot (i j : Nat)
  | merge (i j : Nat)
  | dispose (i : Nat)
  | drop (i : Nat)
  deriving DecidableEq, Repr

/-- What the user of a grove is told. -/
inductive Answer (α : Type) where
  /-- The next unit, if there is one. -/
  | unit (u : Option α)
  /-- A new branch is in the slot after the last one. -/
  | forked
  | same (yes : Bool)
  /-- The branch has moved, over these units if it moved forward. -/
  | merged (units : Option (List α))
  /-- The branch has left. -/
  | left
  /-- A slot is empty, and nothing was done. -/
  | absent

variable {σ α : Type}

/-- The grove of the first branch over a source. -/
def plant (root : Nat) (source : σ) : Grove σ α :=
  ⟨Group.ofSource source, [some (Branch.first root)]⟩

/-- Goes on with the branch in slot `i`, if there is one. -/
def holding {m : Type → Type} [Monad m] (held : List (Option Branch)) (i : Nat)
    (f : Branch → m (Answer α × List (Option Branch))) : m (Answer α × List (Option Branch)) :=
  match held[i]? with
  | some (some b) => f b
  | _ => return (.absent, held)

variable [Source σ α]

/-- Does what was asked for: the answer, and the branches that are held then. -/
def serve (held : List (Option Branch)) : Request → Walk σ α (Answer α × List (Option Branch))
  | .peek i => holding held i fun b => do
    let u ← b.peek
    return (.unit u, held)
  | .read i => holding held i fun b => do
    let (u, b) ← b.read
    return (.unit u, held.set i (some b))
  | .fork i => holding held i fun b => do
    let c ← b.fork
    return (.forked, held ++ [some c])
  | .sameRoot i j => holding held i fun b => holding held j fun c => do
    let yes ← ofExcept (b.sameRoot c)
    return (.same yes, held)
  | .merge i j => holding held i fun b => holding held j fun c => do
    let (units, b) ← b.merge c
    return (.merged units, held.set i (some b))
  | .dispose i => holding held i fun b => do
    let b ← b.dispose
    return (.left, held.set i (some b))
  | .drop i => holding held i fun b => do
    let _ ← b.release
    return (.left, held.set i none)

/-- Asks for something: the answer, and the grove afterwards.  If the request fails, the branches
are held as before. -/
def ask (w : Grove σ α) (r : Request) : Except LexicalError (Answer α) × Grove σ α :=
  match (serve w.held r).run w.group with
  | .ok (answer, held) group => (.ok answer, ⟨group, held⟩)
  | .error e group => (.error e, ⟨group, w.held⟩)

/-- The grove after some requests. -/
def after (w : Grove σ α) (requests : List Request) : Grove σ α :=
  requests.foldl (fun w r => (w.ask r).2) w

/-- Slot `i` holds the branch `b`, which has not left. -/
def Live {σ α : Type} (w : Grove σ α) (i : Nat) (b : Branch) : Prop :=
  w.held[i]? = some (some b) ∧ b.disposed = false

/-- What a request leads to if every branch is a cursor of its own over `units`, which are followed
by `stop`: the answer, and the branches that are held then.  Of the branches only the positions
count; `fresh` is the number for a new branch. -/
def promised (σ : Type) [Source σ α] (units : List α) (stop : Option LexicalError) (fresh : Nat)
    (held : List (Option Branch)) :
    Request → Except LexicalError (Answer α × List (Option Branch))
  | .peek i => holding held i fun b => do
    b.ensureAlive
    let u ← lookAt units stop b.position
    return (.unit u, held)
  | .read i => holding held i fun b => do
    b.ensureAlive
    let u ← lookAt units stop b.position
    return (.unit u, held.set i (some (b.movedTo σ units (min (b.position + 1) units.length))))
  | .fork i => holding held i fun b => do
    b.ensureAlive
    return (.forked, held ++ [some { b with id := fresh }])
  | .sameRoot i j => holding held i fun b => holding held j fun c => do
    b.ensureAlive
    c.ensureAlive
    return (.same true, held)
  | .merge i j => holding held i fun b => holding held j fun c => do
    b.ensureAlive
    c.ensureAlive
    let between :=
      if b.position ≤ c.position then
        some ((units.drop b.position).take (c.position - b.position))
      else none
    return (.merged between, held.set i (some (b.movedTo σ units c.position)))
  | .dispose i => holding held i fun b => do
    b.ensureAlive
    return (.left, held.set i (some { b with disposed := true }))
  | .drop i => holding held i fun _ => return (.left, held.set i none)

/-! ## The branches on the roll -/

/-- How a branch stands on the roll of its group, if it has not left. -/
def listing (b : Branch) : Option (Nat × Nat) :=
  if b.disposed then none else some (b.id, b.position)

/-- The roll of the branches that were neither disposed of nor dropped. -/
def roll (held : List (Option Branch)) : Roll := held.filterMap fun slot => slot.bind listing

section Roll

variable {held : List (Option Branch)} {i : Nat} {b : Branch} {x : Option Branch}

/-- A slot splits the branches that are held. -/
lemma exists_split (h : held[i]? = some x) :
    ∃ l r, held = l ++ x :: r ∧ ∀ y, held.set i y = l ++ y :: r := by
  obtain ⟨hi, rfl⟩ := List.getElem?_eq_some_iff.mp h
  refine ⟨held.take i, held.drop (i + 1), ?_, fun y => ?_⟩
  · rw [← List.drop_eq_getElem_cons hi, List.take_append_drop]
  · rw [List.set_eq_take_append_cons_drop, if_pos hi]

lemma set_self (h : held[i]? = some x) : held.set i x = held := by
  obtain ⟨l, r, hheld, hset⟩ := exists_split h
  rw [hset, ← hheld]

lemma roll_append (l r : List (Option Branch)) : roll (l ++ r) = roll l ++ roll r := by
  simp [roll]

lemma mem_roll (h : held[i]? = some (some b)) (hb : b.disposed = false) :
    (b.id, b.position) ∈ roll held := by
  refine List.mem_filterMap.mpr ⟨some b, List.mem_of_getElem? h, ?_⟩
  simp [listing, hb]

/-- The roll around the entry of a branch does not name the branch again. -/
lemma roll_split (h : held[i]? = some (some b)) (hb : b.disposed = false)
    (hd : (roll held).ids.Nodup) :
    ∃ l r, roll held = l ++ (b.id, b.position) :: r ∧ b.id ∉ Roll.ids l ∧ b.id ∉ Roll.ids r ∧
      ∀ y : Option Branch, roll (held.set i y) = l ++ (y.bind listing).toList ++ r := by
  obtain ⟨l, r, hheld, hset⟩ := exists_split h
  have hroll : roll held = roll l ++ (b.id, b.position) :: roll r := by
    rw [hheld, roll_append]
    simp [roll, listing, hb]
  refine ⟨roll l, roll r, hroll, ?_, ?_, fun y => ?_⟩
  · intro hmem
    rw [hroll, Roll.ids_append, List.nodup_append] at hd
    exact hd.2.2 b.id hmem b.id (by simp [Roll.ids]) rfl
  · intro hmem
    rw [hroll, Roll.ids_append, List.nodup_append] at hd
    have hcons := hd.2.1
    simp only [Roll.ids, List.map_cons, List.nodup_cons] at hcons
    exact hcons.1 hmem
  · rw [hset y, roll_append, List.append_assoc]
    cases hy : y.bind listing with
    | none => simp [roll, hy]
    | some m => simp [roll, hy]

/-- Moving a branch moves its entry. -/
lemma roll_set_of_alive {c : Branch} (h : held[i]? = some (some b)) (hb : b.disposed = false)
    (hd : (roll held).ids.Nodup) (hid : c.id = b.id) (hc : c.disposed = false) :
    roll (held.set i (some c)) = (roll held).moved b.id c.position := by
  obtain ⟨l, r, hroll, hl, hr, hset⟩ := roll_split h hb hd
  rw [hset, hroll, Roll.moved_append, Roll.moved_of_notMem hl,
    show (b.id, b.position) :: r = [(b.id, b.position)] ++ r from rfl, Roll.moved_append,
    Roll.moved_of_notMem hr]
  simp [listing, hc, hid, Roll.moved]

/-- A branch that leaves takes its entry along. -/
lemma roll_set_of_left (h : held[i]? = some (some b)) (hb : b.disposed = false)
    (hd : (roll held).ids.Nodup) (hx : x.bind listing = none) :
    roll (held.set i x) = (roll held).without b.id := by
  obtain ⟨l, r, hroll, hl, hr, hset⟩ := roll_split h hb hd
  rw [hset, hroll, Roll.without_append, Roll.without_of_notMem hl,
    show (b.id, b.position) :: r = [(b.id, b.position)] ++ r from rfl, Roll.without_append,
    Roll.without_of_notMem hr, Roll.without_single, hx]
  simp

/-- A slot without an entry can be emptied. -/
lemma roll_set_of_none {y : Option Branch} (h : held[i]? = some x) (hx : x.bind listing = none)
    (hy : y.bind listing = none) : roll (held.set i y) = roll held := by
  obtain ⟨l, r, hheld, hset⟩ := exists_split h
  have hroll : roll held = roll l ++ roll (x :: r) := by rw [hheld, roll_append]
  rw [hset, roll_append, hroll]
  simp [roll, hx, hy]

end Roll

/-! ## One request -/

variable {units : List α} {stop : Option LexicalError}

/-- The group stores what the positions of the branches say, after `q` units were pulled. -/
structure Sound (F : Supply σ units stop) (root : Nat) (w : Grove σ α) (q : Nat) : Prop where
  follows : F.Follows w.group q (roll w.held)
  rooted : ∀ b, some b ∈ w.held → b.root = root
  placed : ∀ b, some b ∈ w.held → b.place = placeAt σ units b.position

variable {F : Supply σ units stop} {root q i j : Nat} {w : Grove σ α} {b c : Branch}

lemma sound_plant {source : σ} (h : F.At 0 source) : Sound F root (plant root source) 0 where
  follows :=
    { source := fun _ => ⟨source, rfl, h⟩
      released := fun hnil => absurd hnil (by simp [roll, listing, plant, Branch.first])
      members := by simp [roll, listing, plant, Branch.first, Group.ofSource]
      distinct := by simp [roll, listing, plant, Branch.first, Roll.ids]
      known := by simp [roll, listing, plant, Branch.first, Roll.ids, Group.ofSource]
      reached := by simp [roll, listing, plant, Branch.first]
      pulled := Nat.zero_le _ }
  rooted b hb := by
    simp only [plant, List.mem_singleton, Option.some.injEq] at hb
    rw [hb]
    rfl
  placed b hb := by
    simp only [plant, List.mem_singleton, Option.some.injEq] at hb
    rw [hb]
    rfl

lemma Sound.on (h : Sound F root w q) (hi : w.held[i]? = some (some b))
    (hb : b.disposed = false) : b.On σ units (roll w.held) :=
  ⟨hb, mem_roll hi hb, h.placed b (List.mem_of_getElem? hi)⟩

/-- One slot changes. -/
lemma Sound.set {g : Group σ α} {x : Option Branch} {q' : Nat} (h : Sound F root w q)
    (hg : F.Follows g q' (roll (w.held.set i x)))
    (hx : ∀ d, x = some d → d.root = root ∧ d.place = placeAt σ units d.position) :
    Sound F root ⟨g, w.held.set i x⟩ q' where
  follows := hg
  rooted d hd := by
    rcases List.mem_or_eq_of_mem_set hd with hd | hd
    · exact h.rooted d hd
    · exact (hx d hd.symm).1
  placed d hd := by
    rcases List.mem_or_eq_of_mem_set hd with hd | hd
    · exact h.placed d hd
    · exact (hx d hd.symm).2

/-- One branch moves. -/
lemma Sound.move {g : Group σ α} {p q' : Nat} (h : Sound F root w q)
    (hi : w.held[i]? = some (some b)) (hb : b.disposed = false)
    (hg : F.Follows g q' ((roll w.held).moved b.id p)) :
    Sound F root ⟨g, w.held.set i (some (b.movedTo σ units p))⟩ q' := by
  refine h.set ?_ ?_
  · rw [roll_set_of_alive hi hb h.follows.distinct (c := b.movedTo σ units p) rfl hb]
    exact hg
  · rintro d ⟨⟩
    exact ⟨h.rooted b (List.mem_of_getElem? hi), rfl⟩

/-- One branch leaves. -/
lemma Sound.leave {g : Group σ α} {x : Option Branch} (h : Sound F root w q)
    (hi : w.held[i]? = some (some b)) (hb : b.disposed = false)
    (hx : x = none ∨ x = some { b with disposed := true })
    (hg : F.Follows g q ((roll w.held).without b.id)) :
    Sound F root ⟨g, w.held.set i x⟩ q := by
  refine h.set ?_ ?_
  · have hnone : x.bind listing = none := by rcases hx with rfl | rfl <;> simp [listing]
    rw [roll_set_of_left hi hb h.follows.distinct hnone]
    exact hg
  · rintro d rfl
    obtain rfl : d = { b with disposed := true } := by simpa using hx
    have hmem := List.mem_of_getElem? hi
    exact ⟨h.rooted b hmem, h.placed b hmem⟩

/-- The branches that are held after a request that was promised to end like this. -/
def heldAfter (w : Grove σ α) :
    Except LexicalError (Answer α × List (Option Branch)) → List (Option Branch)
  | .ok (_, held) => held
  | .error _ => w.held

/-- The walk ends as it was promised to end, in a sound grove.  If it fails, nothing was pulled, and
unless the source itself has failed, nothing at all has changed. -/
def Meets (F : Supply σ units stop) (root : Nat) (w : Grove σ α) (q : Nat)
    (walk : Walk σ α (Answer α × List (Option Branch)))
    (promise : Except LexicalError (Answer α × List (Option Branch))) : Prop :=
  ∃ g' q', walk.run w.group = (ofExcept promise : Walk σ α _).run g' ∧ q ≤ q' ∧
    Sound F root ⟨g', w.heldAfter promise⟩ q' ∧
    ∀ e, promise = .error e → q' = q ∧ (stop ≠ some e → g' = w.group)

/-- A walk that does nothing and answers. -/
lemma Sound.meets_pure (h : Sound F root w q) (answer : Answer α) :
    Meets F root w q (pure (answer, w.held)) (pure (answer, w.held)) :=
  ⟨w.group, q, rfl, Nat.le_refl q, h, by rintro e ⟨⟩⟩

/-- A walk that fails at once. -/
lemma Sound.meets_error {walk : Walk σ α (Answer α × List (Option Branch))} {e : LexicalError}
    (h : Sound F root w q) (hrun : walk.run w.group = .error e w.group) :
    Meets F root w q walk (.error e) :=
  ⟨w.group, q, hrun, Nat.le_refl q, h, fun _ _ => ⟨rfl, fun _ => rfl⟩⟩

/-- It is enough to look at slots that hold a branch. -/
lemma Sound.meets_holding (h : Sound F root w q)
    {f : Branch → Walk σ α (Answer α × List (Option Branch))}
    {f' : Branch → Except LexicalError (Answer α × List (Option Branch))}
    (hf : ∀ b, w.held[i]? = some (some b) → Meets F root w q (f b) (f' b)) :
    Meets F root w q (holding w.held i f) (holding w.held i f') := by
  unfold holding
  split
  · exact hf _ ‹_›
  · exact h.meets_pure .absent

/-- A walk on a branch that has left fails at once, so it is enough to look at the others. -/
lemma Sound.meets_alive {walk : Walk σ α (Answer α × List (Option Branch))}
    {promise : Except LexicalError (Answer α × List (Option Branch))} (h : Sound F root w q)
    (hdead : b.ensureAlive = .error .disposed → walk.run w.group = .error .disposed w.group)
    (halive : b.disposed = false → Meets F root w q walk promise) :
    Meets F root w q walk (do b.ensureAlive; promise) := by
  cases hb : b.disposed with
  | true =>
    have hdisposed : b.ensureAlive = .error .disposed := by simp [Branch.ensureAlive, hb]
    rw [hdisposed]
    exact h.meets_error (hdead hdisposed)
  | false =>
    rw [show b.ensureAlive = .ok () by simp [Branch.ensureAlive, hb]]
    exact halive hb

lemma Sound.meets_peek (h : Sound F root w q) (hi : w.held[i]? = some (some b)) :
    Meets F root w q
      (do let u ← b.peek; return (.unit u, w.held))
      (do b.ensureAlive; let u ← lookAt units stop b.position; return (.unit u, w.held)) := by
  refine h.meets_alive (fun hdead => by simp [Branch.peek, hdead]) fun hb => ?_
  have hon := h.on hi hb
  obtain ⟨g', hpeek, hg'⟩ := Branch.peek_spec h.follows hon
  cases hlook : lookAt units stop b.position with
  | ok u =>
    rw [hlook] at hpeek
    refine ⟨g', _, ?_, Nat.le_max_left _ _, ⟨hg', h.rooted, h.placed⟩, by rintro e ⟨⟩⟩
    rw [run_bind_ok hpeek]
    rfl
  | error e =>
    obtain ⟨hend, hstop⟩ := lookAt_eq_error_iff.mp hlook
    have hq : max q (min (b.position + 1) units.length) = q := by
      have hle : b.position ≤ q := h.follows.reached _ hon.listed
      have hpulled := h.follows.pulled
      omega
    rw [hlook] at hpeek
    rw [hq] at hg'
    refine ⟨g', q, ?_, Nat.le_refl q, ⟨hg', h.rooted, h.placed⟩, ?_⟩
    · rw [run_bind_error hpeek]
      rfl
    · rintro e' ⟨⟩
      exact ⟨rfl, fun hne => absurd hstop hne⟩

lemma Sound.meets_read (h : Sound F root w q) (hi : w.held[i]? = some (some b)) :
    Meets F root w q
      (do let (u, b) ← b.read; return (.unit u, w.held.set i (some b)))
      (do
        b.ensureAlive
        let u ← lookAt units stop b.position
        let b := b.movedTo σ units (min (b.position + 1) units.length)
        return (.unit u, w.held.set i (some b))) := by
  refine h.meets_alive (fun hdead => by simp [Branch.read, hdead]) fun hb => ?_
  have hon := h.on hi hb
  by_cases hend : b.position = units.length
  · obtain ⟨g', hread, hg'⟩ := Branch.read_of_end h.follows hon hend
    rw [lookAt_eq_ending hend, show min (b.position + 1) units.length = b.position by omega,
      hon.movedTo_self]
    cases stop with
    | none =>
      refine ⟨g', q, ?_, Nat.le_refl q, ?_, by rintro e ⟨⟩⟩
      · rw [run_bind_ok hread]
        rfl
      · have hself := Roll.moved_self h.follows.distinct hon.listed
        have hmove := h.move hi hb (hself.symm ▸ hg')
        rwa [hon.movedTo_self] at hmove
    | some e =>
      refine ⟨g', q, ?_, Nat.le_refl q, ⟨hg', h.rooted, h.placed⟩, ?_⟩
      · rw [run_bind_error hread]
        rfl
      · rintro e' ⟨⟩
        exact ⟨rfl, fun hne => absurd rfl hne⟩
  · have hlt : b.position < units.length :=
      Nat.lt_of_le_of_ne (h.follows.position_le hon) hend
    obtain ⟨g', hread, hg'⟩ := Branch.read_of_lt h.follows hon hlt
    rw [lookAt_of_lt hlt, show min (b.position + 1) units.length = b.position + 1 by omega]
    refine ⟨g', _, ?_, Nat.le_max_left _ _, h.move hi hb hg', by rintro e ⟨⟩⟩
    rw [run_bind_ok hread]
    rfl

lemma Sound.meets_fork (h : Sound F root w q) (hi : w.held[i]? = some (some b)) :
    Meets F root w q
      (do let c ← b.fork; return (.forked, w.held ++ [some c]))
      (do b.ensureAlive; return (.forked, w.held ++ [some { b with id := w.group.nextId }])) := by
  refine h.meets_alive (fun hdead => by simp [Branch.fork, hdead]) fun hb => ?_
  have hon := h.on hi hb
  obtain ⟨g', hfork, hg', -, -⟩ := Branch.fork_spec h.follows hon
  refine ⟨g', q, ?_, Nat.le_refl q, ?_, by rintro e ⟨⟩⟩
  · rw [run_bind_ok hfork]
    rfl
  · have hold : ∀ d, some d ∈ w.held ++ [some { b with id := w.group.nextId }] →
        some d ∈ w.held ∨ d = { b with id := w.group.nextId } := by
      intro d hd
      simpa using hd
    have hmem := List.mem_of_getElem? hi
    constructor
    · show F.Follows g' q (roll (w.held ++ [some { b with id := w.group.nextId }]))
      rw [roll_append]
      simpa [roll, listing, hb] using hg'
    · intro d hd
      rcases hold d hd with hd | rfl
      · exact h.rooted d hd
      · exact h.rooted b hmem
    · intro d hd
      rcases hold d hd with hd | rfl
      · exact h.placed d hd
      · exact h.placed b hmem

lemma Sound.meets_sameRoot (h : Sound F root w q) (hi : w.held[i]? = some (some b))
    (hj : w.held[j]? = some (some c)) :
    Meets F root w q
      (do let yes ← ofExcept (b.sameRoot c); return (.same yes, w.held))
      (do b.ensureAlive; c.ensureAlive; return (.same true, w.held)) := by
  refine h.meets_alive (fun hdead => ?_) fun hb => h.meets_alive (fun hdead => ?_) fun hc => ?_
  · rw [Branch.sameRoot_of_dead (.inl hdead)]
    rfl
  · rw [Branch.sameRoot_of_dead (.inr ⟨Branch.ensureAlive_of_on (h.on hi hb), hdead⟩)]
    rfl
  · have hroot : b.root = c.root := by
      rw [h.rooted b (List.mem_of_getElem? hi), h.rooted c (List.mem_of_getElem? hj)]
    rw [Branch.sameRoot_of_on (h.on hi hb) (h.on hj hc), hroot, beq_self_eq_true]
    exact h.meets_pure (.same true)

lemma Sound.meets_merge (h : Sound F root w q) (hi : w.held[i]? = some (some b))
    (hj : w.held[j]? = some (some c)) :
    Meets F root w q
      (do let (units, b) ← b.merge c; return (.merged units, w.held.set i (some b)))
      (do
        b.ensureAlive
        c.ensureAlive
        let between :=
          if b.position ≤ c.position then
            some ((units.drop b.position).take (c.position - b.position))
          else none
        return (.merged between, w.held.set i (some (b.movedTo σ units c.position)))) := by
  refine h.meets_alive (fun hdead => ?_) fun hb => h.meets_alive (fun hdead => ?_) fun hc => ?_
  · rw [Branch.merge, Branch.sameRoot_of_dead (.inl hdead)]
    rfl
  · rw [Branch.merge, Branch.sameRoot_of_dead (.inr ⟨Branch.ensureAlive_of_on (h.on hi hb), hdead⟩)]
    rfl
  · have hroot : b.root = c.root := by
      rw [h.rooted b (List.mem_of_getElem? hi), h.rooted c (List.mem_of_getElem? hj)]
    obtain ⟨g', hmerge, hg'⟩ := Branch.merge_spec h.follows (h.on hi hb) (h.on hj hc) hroot
    refine ⟨g', q, ?_, Nat.le_refl q, h.move hi hb hg', by rintro e ⟨⟩⟩
    rw [run_bind_ok hmerge]
    rfl

lemma Sound.meets_dispose (h : Sound F root w q) (hi : w.held[i]? = some (some b)) :
    Meets F root w q
      (do let b ← b.dispose; return (.left, w.held.set i (some b)))
      (do b.ensureAlive; return (.left, w.held.set i (some { b with disposed := true }))) := by
  refine h.meets_alive (fun hdead => by simp [Branch.dispose, hdead]) fun hb => ?_
  obtain ⟨hdispose, hg'⟩ := Branch.dispose_spec h.follows (h.on hi hb)
  refine ⟨_, q, ?_, Nat.le_refl q, h.leave hi hb (.inr rfl) hg', by rintro e ⟨⟩⟩
  rw [run_bind_ok hdispose]
  rfl

/-- A branch may be dropped whether it has left or not. -/
lemma Sound.meets_drop (h : Sound F root w q) (hi : w.held[i]? = some (some b)) :
    Meets F root w q (do let _ ← b.release; return (.left, w.held.set i none))
      (pure (.left, w.held.set i none)) := by
  cases hb : b.disposed with
  | true =>
    refine ⟨w.group, q, ?_, Nat.le_refl q, h.set ?_ (by simp), by rintro e ⟨⟩⟩
    · simp [Branch.release, hb]
      rfl
    · rw [roll_set_of_none hi (by simp [listing, hb]) rfl]
      exact h.follows
  | false =>
    obtain ⟨hrelease, hg'⟩ := Branch.release_spec h.follows (h.on hi hb)
    refine ⟨_, q, ?_, Nat.le_refl q, h.leave hi hb (.inl rfl) hg', by rintro e ⟨⟩⟩
    rw [run_bind_ok hrelease]
    rfl

/-- **One request.**  It ends as promised. -/
lemma Sound.serve_spec (h : Sound F root w q) (r : Request) :
    Meets F root w q (serve w.held r) (promised σ units stop w.group.nextId w.held r) := by
  cases r with
  | peek i => exact h.meets_holding fun b hi => h.meets_peek hi
  | read i => exact h.meets_holding fun b hi => h.meets_read hi
  | fork i => exact h.meets_holding fun b hi => h.meets_fork hi
  | sameRoot i j =>
    exact h.meets_holding fun b hi => h.meets_holding fun c hj => h.meets_sameRoot hi hj
  | merge i j =>
    exact h.meets_holding fun b hi => h.meets_holding fun c hj => h.meets_merge hi hj
  | dispose i => exact h.meets_holding fun b hi => h.meets_dispose hi
  | drop i => exact h.meets_holding fun b hi => h.meets_drop hi

lemma Sound.ask_spec (h : Sound F root w q) (r : Request) :
    (w.ask r).1 = (promised σ units stop w.group.nextId w.held r).map Prod.fst ∧
      (w.ask r).2.held = w.heldAfter (promised σ units stop w.group.nextId w.held r) ∧
      ∃ q', q ≤ q' ∧ Sound F root (w.ask r).2 q' ∧
        ∀ e, (w.ask r).1 = .error e → q' = q ∧ (stop ≠ some e → (w.ask r).2 = w) := by
  obtain ⟨g', q', hrun, hqq, hsound, herr⟩ := h.serve_spec r
  unfold ask
  rw [hrun]
  cases hp : promised σ units stop w.group.nextId w.held r with
  | ok done =>
    rw [hp] at hsound
    exact ⟨rfl, rfl, q', hqq, hsound, by rintro e ⟨⟩⟩
  | error e =>
    rw [hp] at hsound
    refine ⟨rfl, rfl, q', hqq, hsound, ?_⟩
    rintro e' ⟨⟩
    obtain ⟨hq, hsame⟩ := herr e hp
    refine ⟨hq, fun hne => ?_⟩
    rw [hsame hne]
    rfl

/-! ## Branches that have not left -/

lemma holding_of_some {m : Type → Type} [Monad m] {held : List (Option Branch)}
    (hi : held[i]? = some (some b)) (f : Branch → m (Answer α × List (Option Branch))) :
    holding held i f = f b := by
  simp [holding, hi]

/-- A branch sees what is at its position, and nobody moves. -/
lemma Sound.ask_peek (h : Sound F root w q) (hb : w.Live i b) :
    (w.ask (.peek i)).1 = (lookAt units stop b.position).map .unit ∧
      (w.ask (.peek i)).2.held = w.held := by
  obtain ⟨hanswer, hheld, -⟩ := h.ask_spec (.peek i)
  rw [promised, holding_of_some hb.1, Branch.ensureAlive_of_on (h.on hb.1 hb.2)] at hanswer hheld
  cases hlook : lookAt units stop b.position with
  | ok u =>
    rw [hlook] at hanswer hheld
    exact ⟨hanswer, hheld⟩
  | error e =>
    rw [hlook] at hanswer hheld
    exact ⟨hanswer, hheld⟩

/-- A branch reads what is at its position, moves on unless it is at the end, and moves nobody
else. -/
lemma Sound.ask_read (h : Sound F root w q) (hb : w.Live i b) :
    (w.ask (.read i)).1 = (lookAt units stop b.position).map .unit ∧
      (w.ask (.read i)).2.held =
        w.held.set i (some (b.movedTo σ units (min (b.position + 1) units.length))) := by
  have hon := h.on hb.1 hb.2
  obtain ⟨hanswer, hheld, -⟩ := h.ask_spec (.read i)
  rw [promised, holding_of_some hb.1, Branch.ensureAlive_of_on hon] at hanswer hheld
  cases hlook : lookAt units stop b.position with
  | ok u =>
    rw [hlook] at hanswer hheld
    exact ⟨hanswer, hheld⟩
  | error e =>
    have hle := h.follows.position_le hon
    have hend := (lookAt_eq_error_iff.mp hlook).1
    rw [hlook] at hanswer hheld
    rw [show min (b.position + 1) units.length = b.position by omega, hon.movedTo_self,
      set_self hb.1]
    exact ⟨hanswer, hheld⟩

/-- A branch moves to another one.  Going forward gives the units in between, and going back gives
none. -/
lemma Sound.ask_merge (h : Sound F root w q) (hb : w.Live i b) (hc : w.Live j c) :
    (w.ask (.merge i j)).1 = .ok (.merged
        (if b.position ≤ c.position then some ((units.take c.position).drop b.position) else none)) ∧
      (w.ask (.merge i j)).2.held =
        w.held.set i (some { b with position := c.position, place := c.place }) := by
  obtain ⟨hanswer, hheld, -⟩ := h.ask_spec (.merge i j)
  rw [promised, holding_of_some hb.1, holding_of_some hc.1,
    Branch.ensureAlive_of_on (h.on hb.1 hb.2), Branch.ensureAlive_of_on (h.on hc.1 hc.2)]
    at hanswer hheld
  rw [List.drop_take, h.placed c (List.mem_of_getElem? hc.1)]
  exact ⟨hanswer, hheld⟩

/-! ## All requests -/

/-- A sound grove stays sound, whatever is asked for. -/
lemma Sound.after (h : Sound F root w q) (requests : List Request) :
    ∃ q', Sound F root (w.after requests) q' := by
  induction requests generalizing w q with
  | nil => exact ⟨q, h⟩
  | cons r requests ih =>
    obtain ⟨-, -, q', -, hr, -⟩ := h.ask_spec r
    exact ih hr

end Grove

end ScriptLang
