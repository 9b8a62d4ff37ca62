/-
Lexers cut a text as maximal munch says.

A lexer tries each lexeme on a fork of its cursor, keeps the fork of the best one so far and lets go of
the others.  Between two words no fork is left, so what a lexer stores is told by the offset of its
cursor (`Lexer.Stands`).  From this the tokens that it will give out are known (`Lexer.Ahead`), and
each operation of a lexer has one lemma that says what it does to them.

The main result is `Lexer.tokenize_eq_munch`.
-/
import ScriptLang.Token.Lexer
import ScriptLang.Proofs.Token.Munch

namespace ScriptLang

/-! ## The best candidate -/

/-- The winner after one more lexeme was tried. -/
def Munch.better (s : List Char) (x : Option Lexeme) (y : Lexeme) : Option Lexeme :=
  if 0 < y.reach s ∧ ∀ z ∈ x, z.reach s < y.reach s then some y else x

/-- The winner is found by trying one lexeme after the other. -/
lemma Munch.winner_eq_foldl (lexemes : List Lexeme) (s : List Char) :
    winner lexemes s = lexemes.foldl (better s) none := by
  have hstep : ∀ (x : Option Lexeme) (y : Lexeme),
      (if decide (0 < y.reach s) then List.argAux (fun z x => x.reach s < z.reach s) x y else x) =
        better s x y := by
    intro x y
    cases x with
    | none => simp [better, List.argAux]
    | some x => by_cases hy : 0 < y.reach s <;> simp [better, List.argAux, hy]
  rw [winner, List.argmax, List.foldl_filter]
  simp only [hstep]

namespace Lexer

variable {text : List Char} {g : Group Reader Char} {q : Nat} {roll : Roll} {b : Branch}

/-- The best candidate so far has a branch, which is the last member of the group and stands after
the word that the lexeme takes. -/
structure Leads (text : List Char) (g : Group Reader Char) (q : Nat) (roll : Roll) (b : Branch)
    (best : Option Candidate) : Prop where
  follows : (Reader.supply text).Follows g q
    (roll ++ best.toList.map fun c => (c.branch.id, c.branch.position))
  position : ∀ c ∈ best, c.branch.position = b.position + c.lexeme.reach (text.drop b.position)
  on : ∀ c ∈ best, c.branch.On Reader text (roll ++ [(c.branch.id, c.branch.position)])
  root : ∀ c ∈ best, b.root = c.branch.root
  new : ∀ c ∈ best, c.branch.id ∉ roll.ids

variable {best : Option Candidate}

lemma leads_none (h : (Reader.supply text).Follows g q roll) : Leads text g q roll b none where
  follows := by simpa using h
  position := by simp
  on := by simp
  root := by simp
  new := by simp

lemma leads_some {c : Branch} {x : Lexeme} (h : Rule.Tried text g q roll b c)
    (hpos : c.position = b.position + x.reach (text.drop b.position)) :
    Leads text g q roll b (some ⟨c, x⟩) where
  follows := h.follows
  position := by rintro - ⟨⟩; exact hpos
  on := by rintro - ⟨⟩; exact h.on
  root := by rintro - ⟨⟩; exact h.root
  new := by rintro - ⟨⟩; exact h.new

lemma Leads.tried {c : Candidate} (h : Leads text g q roll b (some c)) :
    Rule.Tried text g q roll b c.branch :=
  ⟨h.follows, h.on c rfl, h.root c rfl, h.new c rfl⟩

/-- A lexeme is kept if it takes something, and more than the best one so far. -/
lemma Leads.keeps_iff (h : Leads text g q roll b best) {y : Lexeme} {p : Nat}
    (hp : p = b.position + (y.rule.scan (text.drop b.position)).2) :
    ((y.rule.scan (text.drop b.position)).1 && decide (b.position < p) &&
        best.all fun c => decide (c.branch.position < p)) = true ↔
      0 < y.reach (text.drop b.position) ∧ ∀ z ∈ best.map Candidate.lexeme,
        z.reach (text.drop b.position) < y.reach (text.drop b.position) := by
  cases hok : (y.rule.scan (text.drop b.position)).1 with
  | false => simp [Lexeme.reach, hok]
  | true =>
    have hreach : y.reach (text.drop b.position) = (y.rule.scan (text.drop b.position)).2 := by
      simp [Lexeme.reach, hok]
    rw [← hreach] at hp
    cases best with
    | none => simp [hp]
    | some c => simp [hp, h.position c rfl]

/-- If a better candidate was found, the branch of the best one so far leaves. -/
lemma Leads.replace {g₀ : Group Reader Char} {q₀ : Nat} {c : Branch}
    (h : Leads text g₀ q₀ roll b best) {β : Type} (a : β)
    (hc : Rule.Tried text g q (roll ++ best.toList.map fun c => (c.branch.id, c.branch.position)) b c) :
    ∃ g', EStateM.run (do
        if let some d := best then let _ ← d.branch.release
        return a : Walk Reader Char β) g = .ok a g' ∧ Rule.Tried text g' q roll b c := by
  cases best with
  | none => exact ⟨g, rfl, by simpa using hc⟩
  | some d =>
    have hne : c.id ≠ d.branch.id := by
      intro hid
      exact hc.new (by simp [hid, Roll.ids])
    obtain ⟨hrun, hg'⟩ := Branch.release_spec hc.follows ((h.on d rfl).append _)
    have hon := hc.on.without_of_ne hne
    have hroll : Roll.without (roll ++ [(d.branch.id, d.branch.position)] ++ [(c.id, c.position)])
        d.branch.id = roll ++ [(c.id, c.position)] := by
      simp only [Roll.without_append, Roll.without_of_notMem (h.new d rfl), Roll.without_single,
        Roll.without_single_of_ne hne, List.append_nil]
    rw [Option.toList_some, List.map_cons, List.map_nil, hroll] at hg' hon
    refine ⟨_, ?_, hg', hon, hc.root, fun hmem => hc.new (by simp [hmem])⟩
    show EStateM.run (do let _ ← d.branch.release; return a) g = _
    rw [run_bind_ok hrun]
    rfl

/-- One more lexeme is tried. -/
lemma consider_spec (h : Leads text g q roll b best) (hb : b.On Reader text roll) (y : Lexeme) :
    ∃ best' g' q', (consider b best y).run g = .ok best' g' ∧ Leads text g' q' roll b best' ∧
      best'.map Candidate.lexeme =
        Munch.better (text.drop b.position) (best.map Candidate.lexeme) y := by
  obtain ⟨c₀, g₁, c, g₂, q₂, hfork, hrun, -, hpos, htried⟩ :=
    Rule.tried_of_computes (Rule.computes_run y.rule) h.follows (hb.append _)
  have hkeeps := h.keeps_iff hpos
  rw [consider, run_bind_ok hfork, run_bind_ok hrun, Munch.better]
  simp only [hkeeps]
  split
  · rename_i hbetter
    have hreach : y.reach (text.drop b.position) = (y.rule.scan (text.drop b.position)).2 := by
      have hok : (y.rule.scan (text.drop b.position)).1 = true := by
        by_contra hok
        simp [Lexeme.reach, hok] at hbetter
      simp [Lexeme.reach, hok]
    obtain ⟨g₃, hreplace, htried'⟩ := h.replace (some (Candidate.mk c y)) htried
    exact ⟨some ⟨c, y⟩, g₃, q₂, hreplace, leads_some htried' (by rw [hpos, hreach]), rfl⟩
  · obtain ⟨hrelease, hg₃⟩ := htried.release
    refine ⟨best, _, q₂, ?_, ⟨hg₃, h.position, h.on, h.root, h.new⟩, rfl⟩
    rw [run_bind_ok hrelease]
    rfl

/-- All lexemes are tried. -/
lemma best_spec (h : (Reader.supply text).Follows g q roll) (hb : b.On Reader text roll)
    (lexemes : List Lexeme) :
    ∃ found g' q', (Lexer.best b lexemes).run g = .ok found g' ∧ Leads text g' q' roll b found ∧
      found.map Candidate.lexeme = Munch.winner lexemes (text.drop b.position) := by
  -- trying the lexemes one after the other goes on from any candidate
  have hfold : ∀ (lexemes : List Lexeme) (best : Option Candidate) (g : Group Reader Char) (q : Nat),
      Leads text g q roll b best →
      ∃ found g' q', (lexemes.foldlM (consider b) best).run g = .ok found g' ∧
        Leads text g' q' roll b found ∧
        found.map Candidate.lexeme =
          lexemes.foldl (Munch.better (text.drop b.position)) (best.map Candidate.lexeme) := by
    intro lexemes
    induction lexemes with
    | nil => exact fun best g q h => ⟨best, g, q, rfl, h, rfl⟩
    | cons y lexemes ih =>
      intro best g q h
      obtain ⟨best₁, g₁, q₁, hrun₁, h₁, hbest₁⟩ := consider_spec h hb y
      obtain ⟨found, g', q', hrun, h', hfound⟩ := ih best₁ g₁ q₁ h₁
      refine ⟨found, g', q', ?_, h', ?_⟩
      · rw [List.foldlM_cons, run_bind_ok hrun₁]
        exact hrun
      · rw [hfound, hbest₁, List.foldl_cons]
  rw [Munch.winner_eq_foldl]
  exact hfold lexemes none g q (leads_none h)

/-! ## One word -/

/-- The lexer has cut off the first `p` characters of a text, and `look` was looked at and not read
yet.  Its cursor is the only branch. -/
structure Stands (lexemes : List Lexeme) (text : List Char) (look : Option Token) (p : Nat)
    (l : Lexer) : Prop where
  lexemes_eq : l.lexemes = lexemes
  lookahead_eq : l.lookahead = look
  cursor_eq : l.cursor = (Branch.first 0).movedTo Reader text p
  follows : ∃ q, (Reader.supply text).Follows l.group q [(0, p)]

variable {lexemes : List Lexeme} {look : Option Token} {p : Nat} {l : Lexer}

lemma stands_ofText (lexemes : List Lexeme) (text : String) :
    Stands lexemes text.toList none 0 (ofText lexemes text) where
  lexemes_eq := rfl
  lookahead_eq := rfl
  cursor_eq := rfl
  follows := by
    have hsound : Grove.Sound (Reader.supply text.toList) 0 (Grove.plant 0 (Reader.ofText text)) 0 :=
      Grove.sound_plant (Reader.past_zero text).symm
    exact ⟨0, hsound.follows⟩

lemma Stands.on (h : Stands lexemes text look p l) : l.cursor.On Reader text [(0, p)] := by
  rw [h.cursor_eq]
  exact ⟨rfl, by simp [Branch.movedTo, Branch.first], rfl⟩

lemma Stands.position_eq (h : Stands lexemes text look p l) : l.cursor.position = p := by
  rw [h.cursor_eq]
  rfl

lemma Stands.place_eq (h : Stands lexemes text look p l) :
    l.cursor.place = Position.start.advanceOver (text.take p) := by
  rw [h.cursor_eq]
  rfl

lemma Stands.le_length (h : Stands lexemes text look p l) : p ≤ text.length := by
  obtain ⟨q, hg⟩ := h.follows
  exact Nat.le_trans (hg.reached (0, p) (by simp)) hg.pulled

lemma Stands.withGroup (h : Stands lexemes text look p l)
    (hg : (Reader.supply text).Follows g q [(0, p)]) :
    Stands lexemes text look p { l with group := g } :=
  ⟨h.lexemes_eq, h.lookahead_eq, h.cursor_eq, q, hg⟩

lemma run_onBranches_ok {β : Type} {w : Walk Reader Char β} {a : β} {g' : Group Reader Char}
    (h : w.run l.group = .ok a g') :
    (onBranches w).run l = .ok a { l with group := g' } := by
  have h' : w l.group = .ok a g' := h
  simp only [onBranches, EStateM.run, h']

/-- First a lexer looks whether there is a character left. -/
lemma Stands.peek_spec (h : Stands lexemes text look p l) :
    ∃ g' q', (onBranches l.cursor.peek).run l = .ok text[p]? { l with group := g' } ∧
      (Reader.supply text).Follows g' q' [(0, p)] := by
  obtain ⟨q, hg⟩ := h.follows
  obtain ⟨g', hpeek, hg'⟩ := Branch.peek_spec hg h.on
  rw [h.position_eq, lookAt_none] at hpeek
  exact ⟨g', _, run_onBranches_ok hpeek, hg'⟩

lemma word_of_end (h : Stands lexemes text look p l) (hp : p = text.length) :
    ∃ l', word.run l = .ok none l' ∧ Stands lexemes text look p l' := by
  obtain ⟨g', q', hpeek, hg'⟩ := h.peek_spec
  rw [List.getElem?_eq_none (by omega)] at hpeek
  refine ⟨_, ?_, h.withGroup hg'⟩
  simp only [word, EStateM.run_bind, EStateM.run_get, hpeek]
  rfl

lemma word_of_stuck (h : Stands lexemes text look p l) (hp : p < text.length)
    (hw : Munch.winner lexemes (text.drop p) = none) :
    ∃ l', word.run l = .error (.noLexeme (Position.start.advanceOver (text.take p))) l' ∧
      Stands lexemes text look p l' := by
  obtain ⟨g₁, q₁, hpeek, hg₁⟩ := h.peek_spec
  rw [List.getElem?_eq_getElem hp] at hpeek
  obtain ⟨found, g₂, q₂, hbest, hleads, hfound⟩ := best_spec hg₁ h.on l.lexemes
  rw [h.position_eq, h.lexemes_eq, hw, Option.map_eq_none_iff] at hfound
  subst hfound
  refine ⟨_, ?_, h.withGroup (g := g₂) (q := q₂) (by simpa using hleads.follows)⟩
  simp only [word, EStateM.run_bind, EStateM.run_get, hpeek,
    run_onBranches_ok (l := { l with group := g₁ }) hbest]
  rw [← h.place_eq]
  rfl

lemma word_of_winner {x : Lexeme} (h : Stands lexemes text look p l)
    (hw : Munch.winner lexemes (text.drop p) = some x) :
    ∃ l', word.run l = .ok (some ⟨x, (text.drop p).take (x.reach (text.drop p)),
        Position.start.advanceOver (text.take p)⟩) l' ∧
      Stands lexemes text look (p + x.reach (text.drop p)) l' := by
  obtain ⟨g₁, q₁, hpeek, hg₁⟩ := h.peek_spec
  rw [List.getElem?_eq_getElem (Munch.le_length_of_winner hw).1] at hpeek
  obtain ⟨found, g₂, q₂, hbest, hleads, hfound⟩ := best_spec hg₁ h.on l.lexemes
  rw [h.position_eq, h.lexemes_eq, hw] at hfound
  obtain ⟨c, rfl, rfl⟩ := Option.map_eq_some_iff.mp hfound
  have hpos := hleads.position c rfl
  rw [h.position_eq] at hpos
  -- the cursor moves to the branch of the winner, and after that this branch leaves
  obtain ⟨g₃, hmerge, htried⟩ := hleads.tried.merge h.on (by rw [h.position_eq]; omega)
  have hdispose := (Branch.dispose_spec htried.follows htried.on).1
  have hg₄ := htried.release.2
  have hid : l.cursor.id = 0 := by rw [h.cursor_eq]; rfl
  rw [hid, Roll.moved_single_self, hpos] at hg₄
  rw [h.position_eq, hpos, Nat.add_sub_cancel_left] at hmerge
  refine ⟨{ l with
      group := g₃.leave c.branch.id
      cursor := l.cursor.movedTo Reader text (p + c.lexeme.reach (text.drop p)) }, ?_, ?_⟩
  · simp only [word, EStateM.run_bind, EStateM.run_get, hpeek,
      run_onBranches_ok (l := { l with group := g₁ }) hbest,
      run_onBranches_ok (l := { l with group := g₂ }) hmerge,
      run_onBranches_ok (l := { l with group := g₃ }) hdispose]
    rw [← h.place_eq]
    rfl
  · exact ⟨h.lexemes_eq, h.lookahead_eq, by rw [h.cursor_eq]; rfl, q₂, hg₄⟩

/-! ## Tokens -/

/-- Words are taken until one is kept.  Each of them takes a character, so the bound exceeds the
characters that are left. -/
lemma wordToKeep_spec (bound : Nat) (h : Stands lexemes text look p l)
    (hbound : text.length - p < bound) :
    ∃ l' p', (wordToKeep bound).run l =
        (ofExcept (lookAt (Munch.tokens lexemes text p) (Munch.halt lexemes text p) 0) :
          Scan (Option Token)).run l' ∧
      Stands lexemes text look p' l' ∧
      Munch.tokens lexemes text p' = (Munch.tokens lexemes text p).tail ∧
      Munch.halt lexemes text p' = Munch.halt lexemes text p := by
  induction bound generalizing p l with
  | zero => omega
  | succ bound ih =>
    rw [wordToKeep]
    by_cases hp : p = text.length
    · obtain ⟨l', hword, h'⟩ := word_of_end h hp
      have hend : Munch.tokens lexemes text p = [] ∧ Munch.halt lexemes text p = none :=
        Munch.tokens_of_end hp
      refine ⟨l', p, ?_, h', by rw [hend.1]; rfl, rfl⟩
      rw [run_bind_ok hword, hend.1, hend.2]
      rfl
    · have hlt : p < text.length := Nat.lt_of_le_of_ne h.le_length hp
      cases hw : Munch.winner lexemes (text.drop p) with
      | none =>
        obtain ⟨l', hword, h'⟩ := word_of_stuck h hlt hw
        obtain ⟨htokens, hhalt⟩ := Munch.tokens_of_stuck hlt hw
        refine ⟨l', p, ?_, h', by rw [htokens]; rfl, rfl⟩
        rw [run_bind_error hword, htokens, hhalt]
        rfl
      | some x =>
        obtain ⟨l₁, hword, h₁⟩ := word_of_winner h hw
        obtain ⟨htokens, hhalt⟩ := Munch.tokens_of_winner hw
        rw [run_bind_ok hword, htokens, hhalt]
        cases hskip : x.skippable with
        | true =>
          have hpos := (Munch.wins_of_winner hw).1
          obtain ⟨l', p', hrest, h'⟩ := ih h₁ (by omega)
          refine ⟨l', p', ?_, h'⟩
          simp only [hskip, if_true]
          exact hrest
        | false =>
          refine ⟨l₁, _, ?_, h₁, rfl, rfl⟩
          simp only [hskip]
          rfl

/-- The lexer is going to give out the tokens `ts`, and `stop` after them. -/
def Ahead (lexemes : List Lexeme) (text : List Char) (ts : List Token) (stop : Option LexicalError)
    (l : Lexer) : Prop :=
  ∃ look p, Stands lexemes text look p l ∧ ts = look.toList ++ Munch.tokens lexemes text p ∧
    stop = Munch.halt lexemes text p

variable {ts : List Token} {stop : Option LexicalError}

lemma ahead_ofText (lexemes : List Lexeme) (text : String) :
    Ahead lexemes text.toList (Munch.tokens lexemes text.toList 0) (Munch.halt lexemes text.toList 0)
      (ofText lexemes text) :=
  ⟨none, 0, stands_ofText lexemes text, rfl, rfl⟩

lemma Stands.remaining_eq (h : Stands lexemes text look p l) : l.remaining = text.length - p := by
  obtain ⟨q, hg⟩ := h.follows
  rw [remaining, Rule.remaining_eq hg h.on, h.position_eq]

lemma next_spec (h : Stands lexemes text look p l) :
    ∃ l' p', next.run l =
        (ofExcept (lookAt (Munch.tokens lexemes text p) (Munch.halt lexemes text p) 0) :
          Scan (Option Token)).run l' ∧
      Stands lexemes text look p' l' ∧
      Munch.tokens lexemes text p' = (Munch.tokens lexemes text p).tail ∧
      Munch.halt lexemes text p' = Munch.halt lexemes text p := by
  refine wordToKeep_spec (l.remaining + 1) h ?_
  rw [h.remaining_eq]
  exact Nat.lt_succ_self _

/-- Reading takes the first of the tokens. -/
lemma read_spec (h : Ahead lexemes text ts stop l) :
    ∃ l', read.run l = (ofExcept (lookAt ts stop 0) : Scan (Option Token)).run l' ∧
      Ahead lexemes text ts.tail stop l' := by
  obtain ⟨look, p, h, rfl, rfl⟩ := h
  cases look with
  | none =>
    obtain ⟨l', p', hnext, h', htokens, hhalt⟩ := next_spec h
    refine ⟨l', ?_, none, p', h', htokens.symm, hhalt.symm⟩
    simp only [read, EStateM.run_bind, EStateM.run_get, h.lookahead_eq]
    exact hnext
  | some t =>
    refine ⟨{ l with lookahead := none }, ?_, none, p, ?_, rfl, rfl⟩
    · simp only [read, EStateM.run_bind, EStateM.run_get, h.lookahead_eq]
      rfl
    · exact ⟨h.lexemes_eq, rfl, h.cursor_eq, h.follows⟩

/-- Looking shows the first of the tokens and leaves it there. -/
lemma peek_spec (h : Ahead lexemes text ts stop l) :
    ∃ l', peek.run l = (ofExcept (lookAt ts stop 0) : Scan (Option Token)).run l' ∧
      Ahead lexemes text ts stop l' := by
  obtain ⟨look, p, h, rfl, rfl⟩ := h
  cases look with
  | none =>
    obtain ⟨l', p', hnext, h', htokens, hhalt⟩ := next_spec h
    simp only [peek, EStateM.run_bind, EStateM.run_get, h.lookahead_eq, hnext]
    cases hts : Munch.tokens lexemes text p with
    | nil =>
      -- nothing is put aside, and the lexer may have gone over words that are dropped
      have hahead : ∀ l', Stands lexemes text none p' l' →
          Ahead lexemes text [] (Munch.halt lexemes text p) l' := by
        intro l' h'
        refine ⟨none, p', h', ?_, hhalt.symm⟩
        rw [htokens, hts]
        rfl
      cases hstop : Munch.halt lexemes text p with
      | none =>
        rw [hstop] at hahead
        exact ⟨{ l' with lookahead := none }, rfl,
          hahead _ ⟨h'.lexemes_eq, rfl, h'.cursor_eq, h'.follows⟩⟩
      | some e =>
        rw [hstop] at hahead
        exact ⟨l', rfl, hahead l' h'⟩
    | cons t ts =>
      refine ⟨{ l' with lookahead := some t }, rfl, some t, p', ?_, ?_, hhalt.symm⟩
      · exact ⟨h'.lexemes_eq, rfl, h'.cursor_eq, h'.follows⟩
      · rw [htokens, hts]
        rfl
  | some t =>
    refine ⟨l, ?_, some t, p, h, rfl, rfl⟩
    simp only [peek, EStateM.run_bind, EStateM.run_get, h.lookahead_eq]
    rfl

/-- All the tokens are read, if the bound exceeds their number. -/
lemma readAll_spec (bound : Nat) (h : Ahead lexemes text ts stop l) (hbound : ts.length < bound) :
    ∃ l', (readAll bound).run l = (ofExcept (Munch.whole ts stop) : Scan (List Token)).run l' ∧
      Ahead lexemes text [] stop l' := by
  induction bound generalizing ts l with
  | zero => omega
  | succ bound ih =>
    obtain ⟨l₁, hread, h₁⟩ := read_spec h
    rw [readAll]
    cases ts with
    | nil =>
      refine ⟨l₁, ?_, h₁⟩
      cases stop with
      | none =>
        rw [run_bind_ok hread]
        rfl
      | some e =>
        rw [run_bind_error hread]
        rfl
    | cons t ts =>
      obtain ⟨l', hrest, h'⟩ := ih h₁ (Nat.lt_of_succ_lt_succ hbound)
      refine ⟨l', ?_, h'⟩
      rw [run_bind_ok hread]
      cases stop with
      | none =>
        show EStateM.run (do let ts ← readAll bound; return t :: ts) l₁ = _
        rw [run_bind_ok hrest]
        rfl
      | some e =>
        show EStateM.run (do let ts ← readAll bound; return t :: ts) l₁ = _
        rw [run_bind_error hrest]
        rfl

/-- Each token that was not looked at yet takes a character. -/
lemma Ahead.length_le (h : Ahead lexemes text ts stop l) : ts.length ≤ l.remaining + 1 := by
  obtain ⟨look, p, h, rfl, rfl⟩ := h
  have hlook : look.toList.length ≤ 1 := by cases look <;> simp
  have hwords := Munch.length_words_le lexemes text p
  have hkept : (Munch.tokens lexemes text p).length ≤ (Munch.words lexemes text p).1.length :=
    List.length_filter_le _ _
  rw [h.remaining_eq, List.length_append]
  omega

lemma tokenize_spec (h : Ahead lexemes text ts stop l) :
    ∃ l', tokenize.run l = (ofExcept (Munch.whole ts stop) : Scan (List Token)).run l' ∧
      Ahead lexemes text [] stop l' := by
  have hle := h.length_le
  exact readAll_spec (l.remaining + 2) h (by omega)

/-- **Lexers are maximal munch.**  A lexer gives the tokens that `Munch.munch` gives.  Together with the
words that are dropped, they lie side by side and make up the text.  A lexer fails exactly if an offset
before the end is reached at which no lexeme takes anything, and it names the place of this offset. -/
theorem tokenize_eq_munch (lexemes : List Lexeme) (text : String) :
    (∃ l', tokenize.run (ofText lexemes text) =
      (ofExcept (Munch.munch lexemes text.toList) : Scan (List Token)).run l') ∧
    (∀ ts, Munch.munch lexemes text.toList = .ok ts →
      ∃ ws, Munch.Tiles lexemes text.toList ws ∧ ts = ws.filter Munch.kept) ∧
    ∀ e, Munch.munch lexemes text.toList = .error e ↔
      ∃ p, Munch.Reached lexemes text.toList p ∧ p < text.toList.length ∧
        (∀ x ∈ lexemes, x.reach (text.toList.drop p) = 0) ∧
        e = .noLexeme (Position.start.advanceOver (text.toList.take p)) := by
  obtain ⟨l', hrun, -⟩ := tokenize_spec (ahead_ofText lexemes text)
  exact ⟨⟨l', hrun⟩, fun ts hts => Munch.tiles_of_munch hts, fun e => Munch.munch_eq_error_iff⟩

end Lexer

end ScriptLang
