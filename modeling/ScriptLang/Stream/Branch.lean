/-
Branches: several cursors over one source of units.

A source gives out its units one after the other and only once.  The branches of a group share such
a source.  Whenever one of them needs a unit that was not pulled yet, the unit is pulled and put at
the end of the pending units of every member of the group, so that no branch misses it and no branch
has to ask the source for it again.  A branch can be forked, it can be moved to where another branch
of its group stands, and it can leave the group.  When the last member has left, the group lets go of
its source.
-/
import ScriptLang.Stream.Reader

namespace ScriptLang

/-- A source of units. -/
class Source (σ : Type) (α : outParam Type) where
  /-- Pulls the next unit, which is absent at the end of the source. -/
  pull : σ → Except LexicalError (Option α) × σ
  /-- The position after a unit that stands at the given position. -/
  after : α → Position → Position

instance : Source Reader Char where
  pull r := let (c, r) := r.read; (.ok c, r)
  after c p := p.advance c

/-- The state that the branches of one group share. -/
structure Group (σ α : Type) where
  /-- The source, until the last member has left. -/
  source : Option σ
  /-- The members with the units that were pulled and that they have not read yet. -/
  members : List (Nat × List α)
  /-- The number of the next member. -/
  nextId : Nat

/-- A cursor. -/
structure Branch where
  /-- The group to which the branch belongs. -/
  root : Nat
  /-- The number of the branch in its group. -/
  id : Nat
  /-- How many units were read. -/
  position : Nat
  /-- The position of the next unit in the text. -/
  place : Position
  /-- Whether the branch has left its group. -/
  disposed : Bool
  deriving DecidableEq, Repr

namespace Group

variable {σ α : Type}

/-- The group of the first branch over a source. -/
def ofSource (source : σ) : Group σ α := ⟨some source, [(0, [])], 1⟩

/-- The pending units of a member. -/
def pending (g : Group σ α) (id : Nat) : List α := (g.members.lookup id).getD []

/-- Gives a member the pending units `units`. -/
def setPending (g : Group σ α) (id : Nat) (units : List α) : Group σ α :=
  { g with members := g.members.map fun m => if m.1 = id then (id, units) else m }

/-- Puts a unit at the end of the pending units of every member. -/
def push (g : Group σ α) (u : α) : Group σ α :=
  { g with members := g.members.map fun m => (m.1, m.2 ++ [u]) }

/-- Adds a member. -/
def join (g : Group σ α) (units : List α) : Group σ α :=
  { g with members := g.members ++ [(g.nextId, units)], nextId := g.nextId + 1 }

/-- Removes a member.  The source goes with the last one. -/
def leave (g : Group σ α) (id : Nat) : Group σ α :=
  let members := g.members.filter fun m => m.1 ≠ id
  { g with members, source := if members.isEmpty then none else g.source }

end Group

/-- A computation on a group of branches. -/
abbrev Walk (σ α : Type) := EStateM LexicalError (Group σ α)

namespace Branch

variable {σ α : Type} [Source σ α]

/-- The first branch of the group `root`. -/
def first (root : Nat) : Branch := ⟨root, 0, 0, Position.start, false⟩

/-- Fails if the branch has left its group. -/
def ensureAlive (b : Branch) : Except LexicalError Unit :=
  if b.disposed then .error .disposed else .ok ()

/-- Pulls a unit if the branch has none pending. -/
def fill (b : Branch) : Walk σ α Unit := do
  let g ← get
  if (g.pending b.id).isEmpty then
    match g.source with
    | none => throw .disposed
    | some source =>
      let (pulled, source) := Source.pull source
      let g := { g with source := some source }
      match pulled with
      | .error e => set g; throw e
      | .ok none => set g
      | .ok (some u) => set (g.push u)

/-- The next unit, which stays where it is. -/
def peek (b : Branch) : Walk σ α (Option α) := do
  ofExcept b.ensureAlive
  b.fill
  return ((← get).pending b.id).head?

/-- Reads the next unit, if there is one. -/
def read (b : Branch) : Walk σ α (Option α × Branch) := do
  ofExcept b.ensureAlive
  b.fill
  match (← get).pending b.id with
  | [] => return (none, b)
  | u :: units =>
    modify (·.setPending b.id units)
    return (some u, { b with position := b.position + 1, place := Source.after σ u b.place })

/-- A new branch of the group that stands where `b` stands. -/
def fork (b : Branch) : Walk σ α Branch := do
  ofExcept b.ensureAlive
  let g ← get
  set (g.join (g.pending b.id))
  return { b with id := g.nextId }

/-- Whether two branches read from the same source. -/
def sameRoot (b c : Branch) : Except LexicalError Bool := do
  b.ensureAlive
  c.ensureAlive
  return b.root == c.root

/-- Reads `count` units, or fewer at the end of the source. -/
def readMany (b : Branch) : (count : Nat) → Walk σ α (List α × Branch)
  | 0 => return ([], b)
  | count + 1 => do
    match ← b.read with
    | (none, b) => return ([], b)
    | (some u, b) =>
      let (units, b) ← readMany b count
      return (u :: units, b)

/-- Moves `b` to where `c` stands.  Going forward it reads the units in between and returns them;
going back it takes over what `c` has pending. -/
def merge (b c : Branch) : Walk σ α (Option (List α) × Branch) := do
  unless ← ofExcept (b.sameRoot c) do throw .differentRoot
  if b.position ≤ c.position then
    let (units, b) ← b.readMany (c.position - b.position)
    return (some units, b)
  else
    modify fun g => g.setPending b.id (g.pending c.id)
    return (none, { b with position := c.position, place := c.place })

/-- Leaves the group, which a branch may do more than once. -/
def release (b : Branch) : Walk σ α Branch := do
  unless b.disposed do modify (·.leave b.id)
  return { b with disposed := true }

/-- Leaves the group for the first time. -/
def dispose (b : Branch) : Walk σ α Branch := do
  ofExcept b.ensureAlive
  b.release

/-- The parts of a branch, as a text for inspection. -/
def inspect (b : Branch) : String :=
  "Branch \x7b id: " ++ toString b.id ++ ", position: " ++ toString b.position ++
    ", pragma: LinePragma \x7b line: " ++ toString b.place.line ++ ", column: " ++
    toString b.place.column ++ " \x7d, disposed: " ++ toString b.disposed ++ " \x7d"

end Branch

end ScriptLang
