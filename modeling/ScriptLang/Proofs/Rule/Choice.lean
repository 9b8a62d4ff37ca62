/-
Choices on branches.

Each side of a choice runs on a fork of its own, the two are compared by how far they came, and the branch moves
to the winner.  So an alternative that does not match may have gone over some characters, but this does not show,
and of the alternatives that match the longest wins.  The main result is `Grove.alternatives_take_longest`: at
every point of every use of the branches, neither the order of alternatives nor how often they are listed nor how
they are nested has any effect.
-/
import ScriptLang.Proofs.Rule.Taken

namespace ScriptLang

namespace Rule

/-- Choices between two rules or more that do not match go over nothing. -/
lemma ChoiceOf.scan_of_none {r : Rule} {rules : List Rule} {s : List Char} (h : r.ChoiceOf rules)
    (hlength : 2 ≤ rules.length) (hr : r.taken s = none) : r.scan s = (false, 0) := by
  cases h with
  | one => simp at hlength
  | @either first second _ _ _ _ =>
    have hneither : ∀ n, ¬(first.taken s = Option.some n ∨ second.taken s = Option.some n) := by
      intro n hside
      obtain ⟨k, hk, -⟩ := exists_le_taken_alt hside
      cases hr.symm.trans hk
    obtain ⟨n₁, hfirst⟩ := scan_of_taken_none
      (Option.eq_none_iff_forall_ne_some.mpr fun n hn => hneither n (.inl hn))
    obtain ⟨n₂, hsecond⟩ := scan_of_taken_none
      (Option.eq_none_iff_forall_ne_some.mpr fun n hn => hneither n (.inr hn))
    rw [scan, scanAlt, hfirst, hsecond]

/-- The rule matches on a branch and moves it over a text. -/
def Consumes (r : Rule) (b : Branch) (g : Group Reader Char) (w : List Char) : Prop :=
  ∃ b' g', (r.run b).run g = .ok (true, b') g' ∧ b'.position = b.position + w.length ∧
    b.ahead g = w ++ b'.ahead g'

/-- The rule does not match on a branch. -/
def Refuses (r : Rule) (b : Branch) (g : Group Reader Char) : Prop :=
  ∃ b' g', (r.run b).run g = .ok (false, b') g'

/-- On a branch, the rule takes the longest of the texts that the rules of a list take, and matches where one
of them does. -/
def TakesLongest (r : Rule) (rules : List Rule) (b : Branch) (g : Group Reader Char) : Prop :=
  ((∃ w, r.Consumes b g w) ↔ ∃ r' ∈ rules, ∃ w, r'.Consumes b g w) ∧
    ∀ w, r.Consumes b g w ↔ (∃ r' ∈ rules, r'.Consumes b g w) ∧
      ∀ r' ∈ rules, ∀ w', r'.Consumes b g w' → w'.length ≤ w.length

/-- On a branch, both rules take the same text, or neither of them matches. -/
def SameOn (r r' : Rule) (b : Branch) (g : Group Reader Char) : Prop :=
  (∀ w, r.Consumes b g w ↔ r'.Consumes b g w) ∧ (r.Refuses b g ↔ r'.Refuses b g)

end Rule

namespace Grove.Sound

variable {text : String} {root q i : Nat} {w : Grove Reader Char} {b : Branch}

/-- Where a rule leaves a branch on which it is run. -/
lemma run_moves (h : Sound (Reader.supply text.toList) root w q) (hb : w.Live i b) (r : Rule)
    {s : List Char} (hs : s = b.ahead w.group) :
    ∃ b' g', (r.run b).run w.group = .ok ((r.scan s).1, b') g' ∧
      b'.position = b.position + (r.scan s).2 ∧ b'.ahead g' = s.drop (r.scan s).2 ∧
      ((r.scan s).2 = 0 → b' = b) := by
  have hon := h.on hb.1 hb.2
  obtain ⟨g', q', hrun, h'⟩ := h.run_spec hb r
  rw [← hs] at hrun h'
  have hahead : s = text.toList.drop b.position := by rw [hs, Branch.ahead_eq h.follows hon]
  have hi : i < w.held.length := (List.getElem?_eq_some_iff.mp hb.1).1
  refine ⟨_, g', hrun, rfl, ?_, fun hzero => ?_⟩
  · have hlive := h'.on (i := i) (List.getElem?_set_self hi) hb.2
    rw [Branch.ahead_eq h'.follows hlive, hahead, List.drop_drop]
    rfl
  · rw [hzero, Nat.add_zero, hon.movedTo_self]

/-- What a rule consumes on a branch is what it takes of the characters before it. -/
lemma consumes_iff (h : Sound (Reader.supply text.toList) root w q) (hb : w.Live i b) (r : Rule)
    (u : List Char) : r.Consumes b w.group u ↔
      u <+: b.ahead w.group ∧ r.taken (b.ahead w.group) = some u.length := by
  obtain ⟨b', g', hrun, hposition, hahead, -⟩ := h.run_moves hb r rfl
  rw [Rule.Consumes, hrun]
  generalize b.ahead w.group = s at *
  constructor
  · rintro ⟨_, _, heq, hposition', hahead'⟩
    obtain ⟨⟨hok, rfl⟩, rfl⟩ : ((r.scan s).1 = true ∧ b' = _) ∧ g' = _ := by simpa using heq
    have hlength : (r.scan s).2 = u.length := by omega
    refine ⟨⟨_, hahead'.symm⟩, ?_⟩
    rw [Rule.taken, if_pos hok, hlength]
  · rintro ⟨⟨rest, rfl⟩, htaken⟩
    rw [Rule.scan_of_taken htaken] at hposition hahead ⊢
    rw [List.drop_left] at hahead
    exact ⟨b', g', rfl, hposition, by rw [hahead]⟩

/-- A rule that does not match takes nothing. -/
lemma refuses_iff (h : Sound (Reader.supply text.toList) root w q) (hb : w.Live i b) (r : Rule) :
    r.Refuses b w.group ↔ r.taken (b.ahead w.group) = none := by
  obtain ⟨b', g', hrun, -⟩ := h.run_moves hb r rfl
  rw [Rule.Refuses, hrun, Rule.taken]
  cases (r.scan (b.ahead w.group)).1 <;> simp

lemma exists_consumes (h : Sound (Reader.supply text.toList) root w q) (hb : w.Live i b) {r : Rule} {n : Nat}
    (hr : r.taken (b.ahead w.group) = some n) : ∃ u, u.length = n ∧ r.Consumes b w.group u := by
  have hlength : ((b.ahead w.group).take n).length = n := by
    rw [List.length_take, Nat.min_eq_left (Rule.taken_le hr)]
  refine ⟨(b.ahead w.group).take n, hlength, (h.consumes_iff hb r _).mpr ⟨List.take_prefix _ _, ?_⟩⟩
  rw [hr, hlength]

/-- A rule answers in any case, and it does not match where it consumes nothing, not even the empty text. -/
lemma refuses_iff_not_consumes (h : Sound (Reader.supply text.toList) root w q) (hb : w.Live i b)
    (r : Rule) : r.Refuses b w.group ↔ ¬∃ u, r.Consumes b w.group u := by
  rw [h.refuses_iff hb]
  constructor
  · rintro hnone ⟨u, hu⟩
    cases hnone.symm.trans ((h.consumes_iff hb r u).mp hu).2
  · intro hnone
    refine Option.eq_none_iff_forall_ne_some.mpr fun n hn => ?_
    obtain ⟨u, -, hu⟩ := h.exists_consumes hb hn
    exact hnone ⟨u, hu⟩

section Choice

variable {r r' : Rule} {rules rules' : List Rule}

lemma takesLongest (h : Sound (Reader.supply text.toList) root w q) (hb : w.Live i b)
    (hr : r.ChoiceOf rules) : r.TakesLongest rules b w.group := by
  have hconsumes := h.consumes_iff hb
  refine ⟨⟨?_, ?_⟩, fun u => ⟨fun hu => ?_, ?_⟩⟩
  · rintro ⟨u, hu⟩
    rw [hconsumes] at hu
    obtain ⟨r', hmem, htaken⟩ := hr.exists_taken hu.2
    exact ⟨r', hmem, u, (hconsumes r' u).mpr ⟨hu.1, htaken⟩⟩
  · rintro ⟨r', hmem, u, hu⟩
    obtain ⟨k, hk, -⟩ := hr.exists_le_taken hmem ((hconsumes r' u).mp hu).2
    obtain ⟨v, -, hv⟩ := h.exists_consumes hb hk
    exact ⟨v, hv⟩
  · rw [hconsumes, hr.taken_iff] at hu
    obtain ⟨hstarts, ⟨r', hmem, htaken⟩, hmost⟩ := hu
    refine ⟨⟨r', hmem, (hconsumes r' u).mpr ⟨hstarts, htaken⟩⟩, fun other hother v hv => ?_⟩
    exact hmost other hother _ ((hconsumes other v).mp hv).2
  · rintro ⟨⟨r', hmem, hu⟩, hmost⟩
    rw [hconsumes] at hu
    rw [hconsumes, hr.taken_iff]
    refine ⟨hu.1, ⟨r', hmem, hu.2⟩, fun other hother n hn => ?_⟩
    obtain ⟨v, rfl, hv⟩ := h.exists_consumes hb hn
    exact hmost other hother v hv

lemma sameOn (h : Sound (Reader.supply text.toList) root w q) (hb : w.Live i b) (hr : r.ChoiceOf rules)
    (hr' : r'.ChoiceOf rules') (hsame : ∀ x, x ∈ rules ↔ x ∈ rules') : r.SameOn r' b w.group := by
  have htaken := hr.taken_congr hr' hsame (b.ahead w.group)
  refine ⟨fun u => ?_, ?_⟩
  · rw [h.consumes_iff hb, h.consumes_iff hb, htaken]
  · rw [h.refuses_iff hb, h.refuses_iff hb, htaken]

/-- A choice between two rules or more that does not match leaves the branch where it was. -/
lemma run_of_refuses (h : Sound (Reader.supply text.toList) root w q) (hb : w.Live i b)
    (hr : r.ChoiceOf rules) (hlength : 2 ≤ rules.length) (hrefuses : r.Refuses b w.group) :
    ∃ g', (r.run b).run w.group = .ok (false, b) g' := by
  have hscan := hr.scan_of_none hlength ((h.refuses_iff hb r).mp hrefuses)
  obtain ⟨b', g', hrun, -, -, hstay⟩ := h.run_moves hb r rfl
  rw [hscan] at hrun hstay
  obtain rfl := hstay rfl
  exact ⟨g', hrun⟩

end Choice

/-- A text is consumed where it stands before the branch, and nothing but this text. -/
lemma consumes_literal_iff (h : Sound (Reader.supply text.toList) root w q) (hb : w.Live i b) (t : String)
    (u : List Char) : (Rule.literal t).Consumes b w.group u ↔ u = t.toList ∧ t.toList <+: b.ahead w.group := by
  rw [h.consumes_iff hb, Rule.taken_literal]
  constructor
  · rintro ⟨hstarts, htaken⟩
    split at htaken
    next ht =>
      rw [Option.some.injEq, ← String.length_toList] at htaken
      have hsame := List.prefix_of_prefix_length_le hstarts ht (Nat.le_of_eq htaken.symm)
      exact ⟨hsame.eq_of_length htaken.symm, ht⟩
    next => cases htaken
  · rintro ⟨rfl, ht⟩
    rw [if_pos ht, String.length_toList]
    exact ⟨ht, rfl⟩

end Grove.Sound

namespace Grove

/-- **Choices take the longest match.**  Whatever has happened before, a rule that is run on a branch matches or
does not match, and alternatives match where one of them does and consume the longest of the texts that they
consume.  Alternatives in another order, with repetitions, or nested in another way come to the same, and a
choice that does not match leaves the branch where it was.  A text is consumed where it stands before the branch,
so of several texts the longest one is consumed that does. -/
theorem alternatives_take_longest (root : Nat) (text : String) (history : List Event) {i : Nat} {b : Branch}
    {g : Group Reader Char} (hb : (grown root text history).Live i b)
    (hg : g = (grown root text history).group) :
    (∀ r : Rule, r.Refuses b g ↔ ¬∃ w, r.Consumes b g w) ∧
    (∀ rules, rules ≠ [] → (Rule.alternatives rules).TakesLongest rules b g ∧
      (∀ rules', (∀ r, r ∈ rules' ↔ r ∈ rules) →
        (Rule.alternatives rules').SameOn (Rule.alternatives rules) b g) ∧
      ∀ r rules', Rule.ChoiceOf r rules' → (∀ r, r ∈ rules' ↔ r ∈ rules) →
        r.SameOn (Rule.alternatives rules) b g ∧
          (2 ≤ rules'.length → r.Refuses b g → ∃ g', (r.run b).run g = .ok (false, b) g')) ∧
    (∀ (t : String) w, (Rule.literal t).Consumes b g w ↔ w = t.toList ∧ t.toList <+: b.ahead g) ∧
    ∀ texts : List String, texts ≠ [] → ∀ w, (Rule.alternatives (texts.map Rule.literal)).Consumes b g w ↔
      (∃ t ∈ texts, w = t.toList ∧ t.toList <+: b.ahead g) ∧
        ∀ t ∈ texts, t.toList <+: b.ahead g → t.length ≤ w.length := by
  obtain ⟨q, h⟩ := sound_grown root text history
  subst hg
  generalize grown root text history = grove at *
  refine ⟨h.refuses_iff_not_consumes hb, fun rules hrules => ⟨?_, fun rules' hsame => ?_, ?_⟩,
    h.consumes_literal_iff hb, fun texts htexts w => ?_⟩
  · exact h.takesLongest hb (Rule.choiceOf_alternatives hrules)
  · have hrules' : rules' ≠ [] := by
      rintro rfl
      obtain ⟨r, hr⟩ := List.exists_mem_of_ne_nil rules hrules
      cases (hsame r).mpr hr
    exact h.sameOn hb (Rule.choiceOf_alternatives hrules') (Rule.choiceOf_alternatives hrules) hsame
  · intro r rules' hr hsame
    exact ⟨h.sameOn hb hr (Rule.choiceOf_alternatives hrules) hsame, h.run_of_refuses hb hr⟩
  · have hliterals : texts.map Rule.literal ≠ [] := by simpa using htexts
    rw [(h.takesLongest hb (Rule.choiceOf_alternatives hliterals)).2]
    simp only [List.mem_map, exists_exists_and_eq_and, forall_exists_index, and_imp, forall_apply_eq_imp_iff₂,
      h.consumes_literal_iff hb, forall_eq, String.length_toList]

/-- Of three operators, listed in some order, the longest one does not stand before the branch, and the next one
is consumed, though another branch has read the first character already. -/
theorem alternatives_take_longest_operator :
    (grown 0 "==x" [.request (.fork 0), .request (.read 0)]).Live 1 ⟨0, 1, 0, Position.start, false⟩ ∧
      (Rule.alternatives (["=", "===", "=="].map Rule.literal)).Consumes
        ⟨0, 1, 0, Position.start, false⟩
        (grown 0 "==x" [.request (.fork 0), .request (.read 0)]).group ['=', '='] := by
  have hlive : (grown 0 "==x" [.request (.fork 0), .request (.read 0)]).Live 1
      ⟨0, 1, 0, Position.start, false⟩ := ⟨rfl, rfl⟩
  have hahead : Branch.ahead ⟨0, 1, 0, Position.start, false⟩
      (grown 0 "==x" [.request (.fork 0), .request (.read 0)]).group = ['=', '=', 'x'] := rfl
  have htexts := (alternatives_take_longest 0 "==x" [.request (.fork 0), .request (.read 0)] hlive rfl).2.2.2
  refine ⟨hlive, (htexts ["=", "===", "=="] (List.cons_ne_nil _ _) ['=', '=']).mpr ?_⟩
  rw [hahead]
  decide

end Grove

end ScriptLang
