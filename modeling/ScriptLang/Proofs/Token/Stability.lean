/-
The tokens of a text do not depend on how they are asked for.

A lexer gives out the tokens of its text one after the other, and then it comes to its end or fails,
and fails again.  It does not matter how often its user looks ahead, whether several branches share it,
in which order they are moved, and how often a failure is tried again: the token at a position is
always the same.  The main result is `Lexer.tokens_are_stable`.

A lexer is a source of known answers (`Lexer.supply`), so what holds of branches over any such source
holds of branches over a lexer.
-/
import ScriptLang.Proofs.Token.Lexing
import ScriptLang.Proofs.Stream.Independence

namespace ScriptLang

namespace Lexer

/-! ## Looking and reading in any order -/

/-- What the user of a lexer can ask for. -/
inductive Request where
  | peek
  | read
  deriving DecidableEq, Repr

/-- Asks a lexer for a token: the answer, and the lexer afterwards. -/
def ask (l : Lexer) (r : Request) : Except LexicalError (Option Token) × Lexer :=
  match EStateM.run (match r with | .peek => peek | .read => read) l with
  | .ok t l => (.ok t, l)
  | .error e l => (.error e, l)

/-- The lexer after some requests. -/
def after (l : Lexer) (requests : List Request) : Lexer :=
  requests.foldl (fun l r => (l.ask r).2) l

/-- Reading again and again gives the tokens `ts`, until the lexer stops. -/
inductive Gives : Lexer → List Token → Option LexicalError → Prop
  | ended {l l' : Lexer} : read.run l = .ok none l' → Gives l [] none
  | failed {l l' : Lexer} {e : LexicalError} : read.run l = .error e l' → Gives l [] (some e)
  | token {l l' : Lexer} {t : Token} {ts : List Token} {stop : Option LexicalError} :
      read.run l = .ok (some t) l' → Gives l' ts stop → Gives l (t :: ts) stop

variable {lexemes : List Lexeme} {text : List Char} {ts : List Token} {stop : Option LexicalError}
  {l : Lexer}

lemma Ahead.gives (h : Ahead lexemes text ts stop l) : Gives l ts stop := by
  induction ts generalizing l with
  | nil =>
    obtain ⟨l', hread, -⟩ := read_spec h
    cases stop with
    | none => exact .ended hread
    | some e => exact .failed hread
  | cons t ts ih =>
    obtain ⟨l', hread, h'⟩ := read_spec h
    exact .token hread (ih h')

/-- One request shows the first token, and reading takes it away. -/
lemma Ahead.ask_spec (h : Ahead lexemes text ts stop l) (r : Request) :
    (l.ask r).1 = lookAt ts stop 0 ∧
      Ahead lexemes text (ts.drop ([r].count .read)) stop (l.ask r).2 := by
  cases r with
  | peek =>
    obtain ⟨l', hpeek, h'⟩ := peek_spec h
    unfold ask
    simp only [hpeek]
    cases lookAt ts stop 0 with
    | ok t => exact ⟨rfl, h'⟩
    | error e => exact ⟨rfl, h'⟩
  | read =>
    obtain ⟨l', hread, h'⟩ := read_spec h
    rw [← List.drop_one] at h'
    unfold ask
    simp only [hread]
    cases lookAt ts stop 0 with
    | ok t => exact ⟨rfl, h'⟩
    | error e => exact ⟨rfl, h'⟩

/-- After some requests the tokens are left that were not read. -/
lemma Ahead.after (h : Ahead lexemes text ts stop l) (requests : List Request) :
    Ahead lexemes text (ts.drop (requests.count .read)) stop (l.after requests) := by
  induction requests generalizing ts l with
  | nil => exact h
  | cons r requests ih =>
    have hrest := ih (h.ask_spec r).2
    rw [List.drop_drop, ← List.count_append] at hrest
    exact hrest

lemma lookAt_drop (ts : List Token) (stop : Option LexicalError) (i : Nat) :
    lookAt (ts.drop i) stop 0 = lookAt ts stop i := by
  simp [lookAt]

/-! ## Branches over a lexer -/

/-- A lexer gives out its tokens, and then it stops as often as it is asked. -/
def supply (lexemes : List Lexeme) (text : List Char) (ts : List Token)
    (stop : Option LexicalError) : Supply Lexer ts stop where
  At q l := Ahead lexemes text (ts.drop q) stop l
  pull_unit := by
    intro q l hq h
    obtain ⟨l', hread, h'⟩ := read_spec h
    rw [lookAt_drop, lookAt_of_lt hq] at hread
    have hread' : Lexer.read l = .ok (some ts[q]) l' := hread
    refine ⟨l', by simp only [Source.pull, hread'], ?_⟩
    rwa [List.tail_drop] at h'
  pull_stop := by
    intro l h
    obtain ⟨l', hread, h'⟩ := read_spec h
    rw [lookAt_drop, lookAt_eq_ending rfl] at hread
    rw [List.tail_drop, List.drop_eq_nil_of_le (Nat.le_succ _)] at h'
    refine ⟨l', ?_, by rwa [List.drop_length]⟩
    cases stop with
    | none =>
      have hread' : Lexer.read l = .ok none l' := hread
      simp only [Source.pull, hread', ending]
    | some e =>
      have hread' : Lexer.read l = .error e l' := hread
      simp only [Source.pull, hread', ending]

lemma placeAt_lexer (ts : List Token) {n : Nat} (hn : n < ts.length) :
    placeAt Lexer ts (n + 1) = ts[n].stop := by
  rw [placeAt_succ Lexer hn]
  rfl

end Lexer

/-- What a user sees who holds branches over a lexer with the tokens `ts`, and `stop` after them. -/
structure Grove.Shows (ts : List Token) (stop : Option LexicalError) (w : Grove Lexer Token) :
    Prop where
  position_le : ∀ i b, w.Live i b → b.position ≤ ts.length
  /-- A branch that has read nothing is at the start, and any other is after the last token read. -/
  place_zero : ∀ i b, w.Live i b → b.position = 0 → b.place = Position.start
  place_succ : ∀ i b n (hn : n < ts.length), w.Live i b → b.position = n + 1 → b.place = ts[n].stop
  /-- A branch sees the token at its position, or how the lexer stops, and nobody moves. -/
  peek : ∀ i b, w.Live i b →
    (w.ask (.peek i)).1 = (lookAt ts stop b.position).map .unit ∧ (w.ask (.peek i)).2.held = w.held
  /-- A branch reads what it sees. -/
  read : ∀ i b, w.Live i b → (w.ask (.read i)).1 = (lookAt ts stop b.position).map .unit
  read_token : ∀ i b (hb : b.position < ts.length), w.Live i b → (w.ask (.read i)).2.held =
    w.held.set i (some { b with position := b.position + 1, place := ts[b.position].stop })
  read_stop : ∀ i b, b.position = ts.length → w.Live i b → (w.ask (.read i)).2.held = w.held
  /-- Branches that have not left can always be moved to each other. -/
  merge : ∀ i j b c, w.Live i b → w.Live j c →
    (w.ask (.merge i j)).1 = .ok (.merged
      (if b.position ≤ c.position then some ((ts.take c.position).drop b.position) else none)) ∧
    (w.ask (.merge i j)).2.held =
      w.held.set i (some { b with position := c.position, place := c.place })
  /-- A request fails because a branch has left, or with what the lexer fails with.  No branch moves
  then, and none gains or loses a pending token. -/
  fails : ∀ r e, (w.ask r).1 = .error e → (e = .disposed ∨ stop = some e) ∧
    (w.ask r).2.held = w.held ∧ (w.ask r).2.group.members = w.group.members

namespace Grove

variable {lexemes : List Lexeme} {text : List Char} {ts : List Token} {stop : Option LexicalError}
  {root q : Nat} {w : Grove Lexer Token}

lemma Sound.shows (h : Sound (Lexer.supply lexemes text ts stop) root w q) : Shows ts stop w where
  position_le i b hb := h.follows.position_le (h.on hb.1 hb.2)
  place_zero i b hb hzero := by
    rw [h.placed b (List.mem_of_getElem? hb.1), hzero, placeAt_zero]
  place_succ i b n hn hb hpos := by
    rw [h.placed b (List.mem_of_getElem? hb.1), hpos]
    exact Lexer.placeAt_lexer ts hn
  peek i b hb := h.ask_peek hb
  read i b hb := (h.ask_read hb).1
  read_token i b hlt hb := by
    have hheld := (h.ask_read hb).2
    rw [show min (b.position + 1) ts.length = b.position + 1 by omega] at hheld
    rw [← Lexer.placeAt_lexer ts hlt]
    exact hheld
  read_stop i b hend hb := by
    have hheld := (h.ask_read hb).2
    rwa [show min (b.position + 1) ts.length = b.position by omega,
      (h.on hb.1 hb.2).movedTo_self, set_self hb.1] at hheld
  merge i j b c hb hc := h.ask_merge hb hc
  fails r e he := by
    obtain ⟨hanswer, hheld, q', -, h', herror⟩ := h.ask_spec r
    -- nothing was pulled, so the same tokens are pending for the same branches
    obtain ⟨rfl, -⟩ := herror e he
    cases hp : promised Lexer ts stop w.group.nextId w.held r with
    | ok done =>
      rw [hp, he] at hanswer
      cases hanswer
    | error e' =>
      rw [hp] at hanswer hheld
      obtain rfl : e = e' := by
        rw [he] at hanswer
        exact Except.error.inj hanswer
      refine ⟨error_of_promised hp, hheld, ?_⟩
      rw [h'.follows.members, h.follows.members, hheld]
      rfl

end Grove

/-- **Tokens are stable.**  Let `ts` be the tokens that a new lexer reads until it stops.  Whatever was
asked of the lexer, and in whatever order, the next token is the one after those that were read.  The
same holds of branches over the lexer, from wherever it stands, after any requests. -/
theorem Lexer.tokens_are_stable (lexemes : List Lexeme) (text : String) :
    ∃ ts stop, Gives (ofText lexemes text) ts stop ∧
      (∀ requests r,
        (((ofText lexemes text).after requests).ask r).1 = lookAt ts stop (requests.count .read)) ∧
      ∀ (before : List Request) (root : Nat) (requests : List Grove.Request),
        Grove.Shows (ts.drop (before.count .read)) stop
          ((Grove.plant root ((ofText lexemes text).after before)).after requests) := by
  have h := ahead_ofText lexemes text
  refine ⟨_, _, h.gives, ?_, ?_⟩
  · intro requests r
    rw [((h.after requests).ask_spec r).1, lookAt_drop]
  · intro before root requests
    have hplant : Grove.Sound (supply lexemes text.toList _ _) root
        (Grove.plant root ((ofText lexemes text).after before)) 0 :=
      Grove.sound_plant (h.after before)
    obtain ⟨q, hsound⟩ := hplant.after requests
    exact hsound.shows

end ScriptLang
