/-
Branches over a text do not disturb each other.

For the characters of a text the source never fails, so a request fails only if it names a branch
that has left.  The main result is `Grove.branches_stand_alone`: after any requests, the characters
that a branch has pending are the ones between its own position and the last one pulled, and each
branch goes on as a reader of its own would.
-/
import ScriptLang.Proofs.Stream.Grove
import Mathlib.Logic.Function.Iterate

namespace ScriptLang

/-! ## Readers -/

namespace Reader

/-- The reader of a text that has read `p` characters. -/
def past (text : List Char) (p : Nat) : Reader :=
  ⟨text.drop p, p, Position.start.advanceOver (text.take p)⟩

lemma past_zero (text : String) : past text.toList 0 = ofText text := rfl

lemma peek_past (text : List Char) (p : Nat) : (past text p).peek = text[p]? := by
  simp [peek, past]

lemma read_past_of_lt {text : List Char} {p : Nat} (h : p < text.length) :
    (past text p).read = (some text[p], past text (p + 1)) := by
  have hplace : Position.start.advanceOver (text.take (p + 1)) =
      (Position.start.advanceOver (text.take p)).advance text[p] := by
    rw [List.take_succ_eq_append_getElem h, Position.advanceOver_append]
    rfl
  simp only [read, past, List.drop_eq_getElem_cons h, hplace]

lemma read_past_length (text : List Char) :
    (past text text.length).read = (none, past text text.length) := by
  simp [read, past]

/-- Reading again and again leads past one character after the other. -/
lemma iterate_read (text : String) {p : Nat} (h : p ≤ text.toList.length) :
    (fun r => (read r).2)^[p] (ofText text) = past text.toList p := by
  induction p with
  | zero => rfl
  | succ p ih =>
    rw [Function.iterate_succ_apply', ih (by omega), read_past_of_lt (by omega)]

/-- A reader gives out the characters of its text, and then nothing more. -/
def supply (text : List Char) : Supply Reader text none where
  At q r := r = past text q
  pull_unit := by
    rintro q r h rfl
    exact ⟨past text (q + 1), by simp only [Source.pull, read_past_of_lt h], rfl⟩
  pull_stop := by
    rintro r rfl
    exact ⟨past text text.length, by simp only [Source.pull, read_past_length, ending], rfl⟩

end Reader

lemma placeAt_reader (text : List Char) (p : Nat) :
    placeAt Reader text p = Position.start.advanceOver (text.take p) := rfl

lemma lookAt_none {α : Type} (units : List α) (p : Nat) : lookAt units none p = .ok units[p]? := by
  cases hu : units[p]? <;> simp [lookAt, hu, ending]

namespace Grove

/-! ## What a user can rely on -/

/-- The slots whose branches must not have left for a request to be answered. -/
def Request.needs : Request → List Nat
  | .peek i => [i]
  | .read i => [i]
  | .fork i => [i]
  | .sameRoot i j => [i, j]
  | .merge i j => [i, j]
  | .dispose i => [i]
  | .drop _ => []

/-- Slot `i` holds the branch `b`, which has left. -/
def Gone {σ α : Type} (w : Grove σ α) (i : Nat) (b : Branch) : Prop :=
  w.held[i]? = some (some b) ∧ b.disposed = true

/-- What is stored for the branches over a text after `q` characters were pulled. -/
structure Stores (text : List Char) (w : Grove Reader Char) (q : Nat) : Prop where
  pulled : ∀ r, w.group.source = some r → r.count = q
  le_length : q ≤ text.length
  position_le : ∀ i b, w.Live i b → b.position ≤ q
  pending : ∀ i b, w.Live i b → w.group.pending b.id = (text.take q).drop b.position
  place : ∀ i b, w.Live i b → b.place = Position.start.advanceOver (text.take b.position)
  /-- The source is let go when the last branch leaves, and not before. -/
  released : w.group.source = none ↔ ∀ i b, ¬ w.Live i b

/-- A user who holds branches over a text can take each of them for a reader of its own. -/
structure StandsAlone (text : String) (w : Grove Reader Char) : Prop where
  /-- A branch sees what a reader sees that has read as many characters, and nobody moves. -/
  peek : ∀ i b, w.Live i b →
    (w.ask (.peek i)).1 = .ok (.unit text.toList[b.position]?) ∧
      text.toList[b.position]? =
        ((fun r => (Reader.read r).2)^[b.position] (Reader.ofText text)).peek ∧
      (w.ask (.peek i)).2.held = w.held
  /-- A branch reads what such a reader reads, moves as it moves, and moves nobody else. -/
  read : ∀ i b, w.Live i b → ∀ r,
    r = (fun r => (Reader.read r).2)^[b.position] (Reader.ofText text) →
    (w.ask (.read i)).1 = .ok (.unit text.toList[b.position]?) ∧
      r.read.1 = text.toList[b.position]? ∧
      (w.ask (.read i)).2.held =
        w.held.set i (some { b with position := r.read.2.count, place := r.read.2.place })
  /-- A fork stands where the branch stands and has the same characters pending. -/
  fork : ∀ i b, w.Live i b → ∃ c, (w.ask (.fork i)).1 = .ok .forked ∧
    (w.ask (.fork i)).2.held = w.held ++ [some c] ∧ c.disposed = false ∧
    c.position = b.position ∧ c.place = b.place ∧
    (w.ask (.fork i)).2.group.pending c.id = (w.ask (.fork i)).2.group.pending b.id
  sameRoot : ∀ i j b c, w.Live i b → w.Live j c → w.ask (.sameRoot i j) = (.ok (.same true), w)
  /-- Going forward gives the characters in between, and going back gives none. -/
  merge : ∀ i j b c, w.Live i b → w.Live j c →
    (w.ask (.merge i j)).1 = .ok (.merged
      (if b.position ≤ c.position then
        some ((text.toList.take c.position).drop b.position) else none)) ∧
    (w.ask (.merge i j)).2.held =
      w.held.set i (some { b with position := c.position, place := c.place }) ∧
    (w.ask (.merge i j)).2.group.pending b.id = (w.ask (.merge i j)).2.group.pending c.id
  dispose : ∀ i b, w.Live i b → (w.ask (.dispose i)).1 = .ok .left ∧
    (w.ask (.dispose i)).2.held = w.held.set i (some { b with disposed := true })
  /-- A branch may be dropped whether it has left or not. -/
  drop : ∀ i b, w.held[i]? = some (some b) → (w.ask (.drop i)).1 = .ok .left ∧
    (w.ask (.drop i)).2.held = w.held.set i none
  /-- Branches that have not left are never refused. -/
  answers : ∀ r, (∀ i ∈ r.needs, ∃ b, w.Live i b) → ∃ answer, (w.ask r).1 = .ok answer
  /-- A branch that has left is always refused. -/
  refuses : ∀ r i b, i ∈ r.needs → w.Gone i b →
    (∀ j ∈ r.needs, ∃ c, w.held[j]? = some (some c)) → (w.ask r).1 = .error .disposed
  /-- A request that fails changes nothing. -/
  fails : ∀ r e, (w.ask r).1 = .error e → e = .disposed ∧ (w.ask r).2 = w

/-! ## Sound groves -/

section Promises

variable {σ α : Type} [Source σ α] {units : List α} {stop : Option LexicalError} {fresh i j : Nat}
  {held : List (Option Branch)} {b c : Branch}

/-- A request for branches that are held fails at once if one of them has left. -/
lemma promised_of_gone {r : Request} (hi : i ∈ r.needs) (hb : held[i]? = some (some b))
    (hgone : b.disposed = true) (hr : ∀ j ∈ r.needs, ∃ c, held[j]? = some (some c)) :
    promised σ units stop fresh held r = .error .disposed := by
  have hdead : b.ensureAlive = .error .disposed := by simp [Branch.ensureAlive, hgone]
  cases r with
  | peek k | read k | fork k | dispose k =>
    obtain rfl : i = k := by simpa [Request.needs] using hi
    rw [promised, holding_of_some hb, hdead]
    rfl
  | sameRoot k l | merge k l =>
    obtain ⟨c, hc⟩ := hr k (by simp [Request.needs])
    obtain ⟨d, hd⟩ := hr l (by simp [Request.needs])
    rw [promised, holding_of_some hc, holding_of_some hd]
    cases hc' : c.disposed with
    | true => simp [Branch.ensureAlive, hc', bind, Except.bind]
    | false =>
      have hd' : d.disposed = true := by
        have hkl : i = k ∨ i = l := by simpa [Request.needs] using hi
        rcases hkl with rfl | rfl
        · rw [hc] at hb
          simp_all
        · rw [hd] at hb
          simp_all
      simp [Branch.ensureAlive, hc', hd', bind, Except.bind]
  | drop k => simp [Request.needs] at hi

/-- A request for branches that have not left is answered, if the units have no bad end. -/
lemma promised_of_live {r : Request}
    (hr : ∀ j ∈ r.needs, ∃ c, held[j]? = some (some c) ∧ c.disposed = false) :
    ∃ done, promised σ units none fresh held r = .ok done := by
  cases r with
  | peek k | read k | fork k | dispose k =>
    obtain ⟨b, hb, hlive⟩ := hr k (by simp [Request.needs])
    simp [promised, holding_of_some hb, Branch.ensureAlive, hlive, lookAt_none, bind, Except.bind,
      pure, Except.pure]
  | sameRoot k l | merge k l =>
    obtain ⟨b, hb, hlive⟩ := hr k (by simp [Request.needs])
    obtain ⟨c, hc, hlive'⟩ := hr l (by simp [Request.needs])
    simp [promised, holding_of_some hb, holding_of_some hc, Branch.ensureAlive, hlive, hlive', bind,
      Except.bind, pure, Except.pure]
  | drop k =>
    simp only [promised, holding]
    split
    · exact ⟨_, rfl⟩
    · exact ⟨_, rfl⟩

lemma error_of_ensureAlive {e : LexicalError} (h : b.ensureAlive = .error e) : e = .disposed := by
  cases hb : b.disposed with
  | true => simpa [Branch.ensureAlive, hb] using h.symm
  | false => simp [Branch.ensureAlive, hb] at h

lemma error_of_bind {β γ : Type} {x : Except LexicalError β} {f : β → Except LexicalError γ}
    {e : LexicalError} (h : (x >>= f) = .error e) : x = .error e ∨ ∃ a, f a = .error e := by
  cases x with
  | error e' =>
    cases h
    exact Or.inl rfl
  | ok a => exact Or.inr ⟨a, h⟩

lemma error_of_holding {e : LexicalError}
    {f : Branch → Except LexicalError (Answer α × List (Option Branch))}
    (h : holding held i f = .error e) : ∃ b, f b = .error e := by
  unfold holding at h
  split at h
  · exact ⟨_, h⟩
  · cases h

/-- A request fails because a branch has left, or because the units come to a bad end. -/
lemma error_of_promised {r : Request} {e : LexicalError}
    (h : promised σ units stop fresh held r = .error e) : e = .disposed ∨ stop = some e := by
  cases r with
  | peek k | read k =>
    obtain ⟨b, hb⟩ := error_of_holding h
    rcases error_of_bind hb with hdead | ⟨-, hb⟩
    · exact Or.inl (error_of_ensureAlive hdead)
    · rcases error_of_bind hb with hlook | ⟨u, hu⟩
      · exact Or.inr (lookAt_eq_error_iff.mp hlook).2
      · exact absurd hu (by rintro ⟨⟩)
  | fork k | dispose k =>
    obtain ⟨b, hb⟩ := error_of_holding h
    rcases error_of_bind hb with hdead | ⟨-, hb⟩
    · exact Or.inl (error_of_ensureAlive hdead)
    · exact absurd hb (by rintro ⟨⟩)
  | sameRoot k l | merge k l =>
    obtain ⟨b, hb⟩ := error_of_holding h
    obtain ⟨c, hc⟩ := error_of_holding hb
    rcases error_of_bind hc with hdead | ⟨-, hc⟩
    · exact Or.inl (error_of_ensureAlive hdead)
    · rcases error_of_bind hc with hdead | ⟨-, hc⟩
      · exact Or.inl (error_of_ensureAlive hdead)
      · exact absurd hc (by rintro ⟨⟩)
  | drop k =>
    obtain ⟨b, hb⟩ := error_of_holding h
    exact absurd hb (by rintro ⟨⟩)

end Promises

lemma mem_roll_iff {held : List (Option Branch)} {m : Nat × Nat} :
    m ∈ roll held ↔ ∃ (i : Nat) (b : Branch),
      held[i]? = some (some b) ∧ b.disposed = false ∧ m = (b.id, b.position) := by
  constructor
  · intro hm
    obtain ⟨slot, hslot, hentry⟩ := List.mem_filterMap.mp hm
    obtain ⟨b, rfl, hb⟩ := Option.bind_eq_some_iff.mp hentry
    obtain ⟨i, hi⟩ := List.mem_iff_getElem?.mp hslot
    cases hd : b.disposed with
    | true => simp [listing, hd] at hb
    | false => exact ⟨i, b, hi, hd, by simpa [listing, hd] using hb.symm⟩
  · rintro ⟨i, b, hi, hb, rfl⟩
    exact mem_roll hi hb

lemma Sound.stores {text : List Char} {root q : Nat} {w : Grove Reader Char}
    (h : Sound (Reader.supply text) root w q) : Stores text w q where
  pulled r hr := by
    have hne : roll w.held ≠ [] := by
      intro hnil
      rw [h.follows.released hnil] at hr
      cases hr
    obtain ⟨s, hs, rfl⟩ := h.follows.source hne
    rw [hr] at hs
    rw [Option.some.inj hs]
    rfl
  le_length := h.follows.pulled
  position_le i b hb := h.follows.reached _ (mem_roll hb.1 hb.2)
  pending i b hb := h.follows.pending_eq (mem_roll hb.1 hb.2)
  place i b hb := h.placed b (List.mem_of_getElem? hb.1)
  released := by
    constructor
    · intro hnone i b hb
      obtain ⟨s, hs, -⟩ := h.follows.source (List.ne_nil_of_mem (mem_roll hb.1 hb.2))
      rw [hnone] at hs
      cases hs
    · intro hdead
      refine h.follows.released (List.eq_nil_iff_forall_not_mem.mpr fun m hm => ?_)
      obtain ⟨i, b, hi, hb, -⟩ := mem_roll_iff.mp hm
      exact hdead i b ⟨hi, hb⟩

section Alone

variable {text : String} {root q : Nat} {w : Grove Reader Char}

/-- What is promised of a request is what happens. -/
lemma Sound.ask_of_promised (h : Sound (Reader.supply text.toList) root w q) {r : Request}
    {answer : Answer Char} {held : List (Option Branch)}
    (hp : promised Reader text.toList none w.group.nextId w.held r = .ok (answer, held)) :
    (w.ask r).1 = .ok answer ∧ (w.ask r).2.held = held ∧
      ∃ q', Sound (Reader.supply text.toList) root (w.ask r).2 q' := by
  obtain ⟨hanswer, hheld, q', -, hsound, -⟩ := h.ask_spec r
  rw [hp] at hanswer hheld
  exact ⟨hanswer, hheld, q', hsound⟩

lemma Sound.iterate_read (h : Sound (Reader.supply text.toList) root w q) {i : Nat} {b : Branch}
    (hb : w.Live i b) :
    (fun r => (Reader.read r).2)^[b.position] (Reader.ofText text) =
      Reader.past text.toList b.position :=
  Reader.iterate_read text (h.follows.position_le (h.on hb.1 hb.2))

/-- The reader of a branch and the branch read the same and stop at the same place. -/
lemma read_past (text : List Char) {p : Nat} (hp : p ≤ text.length) :
    (Reader.past text p).read = (text[p]?, Reader.past text (min (p + 1) text.length)) := by
  by_cases hlt : p < text.length
  · rw [Reader.read_past_of_lt hlt, show min (p + 1) text.length = p + 1 by omega,
      List.getElem?_eq_getElem hlt]
  · obtain rfl : p = text.length := by omega
    rw [Reader.read_past_length, show min (text.length + 1) text.length = text.length by omega,
      List.getElem?_eq_none (Nat.le_refl _)]

lemma Sound.standsAlone (h : Sound (Reader.supply text.toList) root w q) :
    StandsAlone text w where
  peek i b hb := by
    obtain ⟨hanswer, hheld⟩ := h.ask_peek hb
    rw [lookAt_none] at hanswer
    rw [h.iterate_read hb, Reader.peek_past]
    exact ⟨hanswer, rfl, hheld⟩
  read i b hb r hr := by
    have hle := h.follows.position_le (h.on hb.1 hb.2)
    obtain ⟨hanswer, hheld⟩ := h.ask_read hb
    rw [lookAt_none] at hanswer
    rw [hr, h.iterate_read hb, read_past text.toList hle]
    exact ⟨hanswer, rfl, hheld⟩
  fork i b hb := by
    have hp : promised Reader text.toList none w.group.nextId w.held (.fork i) =
        .ok (.forked, w.held ++ [some { b with id := w.group.nextId }]) := by
      rw [promised, holding_of_some hb.1, Branch.ensureAlive_of_on (h.on hb.1 hb.2)]
      rfl
    obtain ⟨hanswer, hheld, q', hsound⟩ := h.ask_of_promised hp
    refine ⟨{ b with id := w.group.nextId }, hanswer, hheld, hb.2, rfl, rfl, ?_⟩
    have hnew : (w.group.nextId, b.position) ∈ roll (w.ask (.fork i)).2.held := by
      rw [hheld, roll_append]
      simp [roll, listing, hb.2]
    have hold : (b.id, b.position) ∈ roll (w.ask (.fork i)).2.held := by
      rw [hheld, roll_append]
      exact List.mem_append_left _ (mem_roll hb.1 hb.2)
    rw [hsound.follows.pending_eq hold]
    exact hsound.follows.pending_eq hnew
  sameRoot i j b c hb hc := by
    have hroot : b.root = c.root := by
      rw [h.rooted b (List.mem_of_getElem? hb.1), h.rooted c (List.mem_of_getElem? hc.1)]
    rw [ask, serve, holding_of_some hb.1, holding_of_some hc.1,
      Branch.sameRoot_of_on (h.on hb.1 hb.2) (h.on hc.1 hc.2), hroot, beq_self_eq_true]
    rfl
  merge i j b c hb hc := by
    obtain ⟨hanswer, hheld⟩ := h.ask_merge hb hc
    obtain ⟨-, -, q', -, hsound, -⟩ := h.ask_spec (.merge i j)
    refine ⟨hanswer, hheld, ?_⟩
    -- both branches now stand at the position of `c`
    have hroll : roll (w.ask (.merge i j)).2.held = (roll w.held).moved b.id c.position := by
      rw [hheld]
      exact roll_set_of_alive hb.1 hb.2 h.follows.distinct rfl hb.2
    have hbm : (b.id, c.position) ∈ roll (w.ask (.merge i j)).2.held := by
      rw [hroll]
      exact Roll.mem_moved_self (Roll.mem_ids_of_mem (mem_roll hb.1 hb.2))
    have hcm : (c.id, c.position) ∈ roll (w.ask (.merge i j)).2.held := by
      by_cases hid : c.id = b.id
      · rw [hid]
        exact hbm
      · rw [hroll, Roll.mem_moved_of_ne hid]
        exact mem_roll hc.1 hc.2
    rw [hsound.follows.pending_eq hbm, hsound.follows.pending_eq hcm]
  dispose i b hb := by
    have hp : promised Reader text.toList none w.group.nextId w.held (.dispose i) =
        .ok (.left, w.held.set i (some { b with disposed := true })) := by
      rw [promised, holding_of_some hb.1, Branch.ensureAlive_of_on (h.on hb.1 hb.2)]
      rfl
    obtain ⟨hanswer, hheld, -⟩ := h.ask_of_promised hp
    exact ⟨hanswer, hheld⟩
  drop i b hb := by
    have hp : promised Reader text.toList none w.group.nextId w.held (.drop i) =
        .ok (.left, w.held.set i none) := by
      rw [promised, holding_of_some hb]
      rfl
    obtain ⟨hanswer, hheld, -⟩ := h.ask_of_promised hp
    exact ⟨hanswer, hheld⟩
  answers r hr := by
    have hex : ∃ done, promised Reader text.toList none w.group.nextId w.held r = .ok done :=
      promised_of_live hr
    obtain ⟨⟨answer, held⟩, hp⟩ := hex
    exact ⟨answer, (h.ask_of_promised hp).1⟩
  refuses r i b hi hb hr := by
    rw [(h.ask_spec r).1, promised_of_gone hi hb.1 hb.2 hr]
    rfl
  fails r e he := by
    obtain ⟨hanswer, -, q', -, -, hsame⟩ := h.ask_spec r
    refine ⟨?_, (hsame e he).2 (by simp)⟩
    rw [he] at hanswer
    cases hp : promised Reader text.toList none w.group.nextId w.held r with
    | ok done => rw [hp] at hanswer; cases hanswer
    | error e' =>
      rw [hp] at hanswer
      cases hanswer
      rcases error_of_promised hp with hdead | hstop
      · exact hdead
      · cases hstop

end Alone

/-- **Branches stand alone.**  Whatever was asked for, the characters stored for each branch are the
ones that were pulled since its position, and every further request is answered as if each branch
read the text by itself. -/
theorem branches_stand_alone (root : Nat) (text : String) (requests : List Request) :
    (∃ q, Stores text.toList ((plant root (Reader.ofText text)).after requests) q) ∧
      StandsAlone text ((plant root (Reader.ofText text)).after requests) := by
  have hstart : Sound (Reader.supply text.toList) root (plant root (Reader.ofText text)) 0 :=
    sound_plant (Reader.past_zero text).symm
  obtain ⟨q, h⟩ := hstart.after requests
  exact ⟨⟨q, h.stores⟩, h.standsAlone⟩

end Grove

end ScriptLang
