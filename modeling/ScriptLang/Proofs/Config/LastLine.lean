/-
The last line of an option text wins.

A line of an option text speaks of one option or of none (`Config.Says`, `Config.Inert`).  The options are
independent of each other: reading a line sets the option that it speaks of and keeps the others
(`Config.readLine_of_says`, `Config.get_readLine`).  So each option has the value that the last line about it
gives, which is the default if that line gives no valid value, and the order of lines about different options
does not matter (`Config.last_line_wins`).
-/
import ScriptLang.Config.OptionText
import ScriptLang.Proofs.Text.Pieces

namespace ScriptLang.Config

/-! ## The options -/

/-- The options that an option text can set. -/
inductive Key where
  | name
  | maxCallDepth
  | checkCancellation
  | topLevelReturn
  | traceStatements
  deriving DecidableEq

namespace Key

/-- The word for an option. -/
def word : Key → String
  | name => "name"
  | maxCallDepth => "maxcalldepth"
  | checkCancellation => "checkcancellation"
  | topLevelReturn => "toplevelreturn"
  | traceStatements => "tracestatements"

/-- The type of the values of an option. -/
abbrev Carrier : Key → Type
  | name => String
  | maxCallDepth => Nat
  | checkCancellation | topLevelReturn | traceStatements => Bool

/-- The value of an option. -/
def get : (k : Key) → Config → k.Carrier
  | name, c => c.name
  | maxCallDepth, c => c.maxCallDepth
  | checkCancellation, c => c.checkCancellation
  | topLevelReturn, c => c.topLevelReturn
  | traceStatements, c => c.traceStatements

/-- Sets an option and keeps the others. -/
def set : (k : Key) → k.Carrier → Config → Config
  | name, x, c => { c with name := x }
  | maxCallDepth, x, c => { c with maxCallDepth := x }
  | checkCancellation, x, c => { c with checkCancellation := x }
  | topLevelReturn, x, c => { c with topLevelReturn := x }
  | traceStatements, x, c => { c with traceStatements := x }

/-- The value of an option that nothing is said of. -/
def standard (k : Key) : k.Carrier := k.get {}

/-- The text is valid for the option and denotes the value. -/
def Denotes : (k : Key) → List Char → k.Carrier → Prop
  | name, cs, x => x = String.ofList cs
  | maxCallDepth, cs, n =>
    (Text.Numeral cs n ∨ ∃ digits, cs = '+' :: digits ∧ Text.Numeral digits n) ∧ n < 2 ^ 64
  | checkCancellation, cs, b | topLevelReturn, cs, b | traceStatements, cs, b =>
    cs = (toString b).toList

/-- The value that a text gives to the option: what it denotes, and the default if it is not valid. -/
def Reads (k : Key) (cs : List Char) (x : k.Carrier) : Prop :=
  k.Denotes cs x ∨ (∀ y, ¬ k.Denotes cs y) ∧ x = k.standard

/-- Reads a value of the option. -/
def read? : (k : Key) → String → Option k.Carrier
  | name, s => some s
  | maxCallDepth, s => number? s
  | checkCancellation, s | topLevelReturn, s | traceStatements, s => boolean? s

variable {k k' : Key} {c : Config} {cs : List Char}

lemma get_set (k : Key) (x : k.Carrier) (c : Config) : k.get (k.set x c) = x := by
  cases k <;> rfl

lemma get_set_of_ne (hk : k ≠ k') (x : k'.Carrier) (c : Config) : k.get (k'.set x c) = k.get c := by
  cases k <;> cases k' <;> first | rfl | exact absurd rfl hk

lemma set_comm (hk : k ≠ k') (x : k.Carrier) (y : k'.Carrier) (c : Config) :
    k.set x (k'.set y c) = k'.set y (k.set x c) := by
  cases k <;> cases k' <;> first | rfl | exact absurd rfl hk

end Key

lemma number?_eq_some_iff {cs : List Char} {n : Nat} :
    number? (String.ofList cs) = some n ↔
      (Text.Numeral cs n ∨ ∃ digits, cs = '+' :: digits ∧ Text.Numeral digits n) ∧ n < 2 ^ 64 := by
  have hmax (n : Nat) : n ≤ maxNumber ↔ n < 2 ^ 64 := by
    have : maxNumber = 2 ^ 64 - 1 := rfl
    omega
  simp only [number?, String.toList_ofList, Option.filter_eq_some_iff, decide_eq_true_eq, hmax,
    Text.decimal?_eq_some_iff, and_congr_left_iff]
  intro _
  split
  · next digits =>
    -- a plus sign is no digit, so the first reading is out
    have hplus : ¬ Text.Numeral ('+' :: digits) n := by
      rintro ⟨-, hdigits, -⟩
      exact absurd (hdigits '+' (by simp)) (by decide)
    simp [hplus]
  · next hcs =>
    have hplus : ¬ ∃ digits, cs = '+' :: digits ∧ Text.Numeral digits n :=
      fun ⟨digits, h, _⟩ => hcs digits h
    simp only [hplus, or_false]

lemma boolean?_eq_some_iff {cs : List Char} {b : Bool} :
    boolean? (String.ofList cs) = some b ↔ cs = (toString b).toList := by
  constructor
  · intro h
    rw [boolean?] at h
    split at h
    · next hs =>
      cases h
      rw [← String.toList_ofList (l := cs), hs]
      rfl
    · split at h
      · next hs =>
        cases h
        rw [← String.toList_ofList (l := cs), hs]
        rfl
      · cases h
  · rintro rfl
    rw [String.ofList_toList]
    cases b <;> decide

/-- A text is read as the value that it denotes. -/
lemma Key.read?_eq_some_iff {k : Key} {cs : List Char} {x : k.Carrier} :
    k.read? (String.ofList cs) = some x ↔ k.Denotes cs x := by
  cases k with
  | name => exact Option.some_inj.trans eq_comm
  | maxCallDepth => exact number?_eq_some_iff
  | checkCancellation => exact boolean?_eq_some_iff
  | topLevelReturn => exact boolean?_eq_some_iff
  | traceStatements => exact boolean?_eq_some_iff

lemma Key.reads_getD_read? (k : Key) (cs : List Char) :
    k.Reads cs ((k.read? (String.ofList cs)).getD k.standard) := by
  cases hread : k.read? (String.ofList cs) with
  | some x => exact .inl (read?_eq_some_iff.mp hread)
  | none =>
    refine .inr ⟨fun y hy => ?_, rfl⟩
    rw [read?_eq_some_iff.mpr hy] at hread
    cases hread

/-! ## Lines -/

/-- The line gives a value to what the word stands for.  Without blanks at its ends the line is no comment
and has the word before its first equals sign and the value after it. -/
def Says (line word value : List Char) : Prop :=
  ∃ body before after, Text.Trims line body ∧ body.head? ≠ some '#' ∧
    body = before ++ '=' :: after ∧ '=' ∉ before ∧ Text.Trims before word ∧ Text.Trims after value

/-- The line is about the option. -/
def Sets (line : List Char) (k : Key) : Prop :=
  ∃ value, Says line k.word.toList value

/-- The lines that are about no option: blank ones, comments, those without an equals sign and those with a
word for none of the options. -/
inductive Inert (line : List Char) : Prop
  | blank : (∀ c ∈ line, Text.isBlank c) → Inert line
  | comment (text : List Char) : Text.Trims line ('#' :: text) → Inert line
  | unsigned : '=' ∉ line → Inert line
  | unknown (word value : List Char) : Says line word value → (∀ k : Key, word ≠ k.word.toList) →
      Inert line

/-- The options after one more line. -/
def readLine (c : Config) (line : List Char) : Config := apply c (.ofText line)

variable {line line' word value : List Char} {lines : List (List Char)} {k : Key} {c : Config}

lemma says_iff : Says line word value ↔
    Line.ofText line = .option (String.ofList word) (String.ofList value) := by
  constructor
  · rintro ⟨body, before, after, hbody, hhash, heq, hbefore, hword, hvalue⟩
    have hne : body ≠ [] := by simp [heq]
    have hcut := Text.cutAt?_eq_some_iff.mpr ⟨heq, hbefore⟩
    simp [Line.ofText, hbody.trim_eq, hne, hhash, hcut, hword.trim_eq, hvalue.trim_eq]
  · intro h
    simp only [Line.ofText] at h
    split at h
    · cases h
    · next hbody =>
      split at h
      · cases h
      · next before after hcut =>
        obtain ⟨hword, hvalue⟩ := Line.option.inj h
        obtain ⟨heq, hbefore⟩ := Text.cutAt?_eq_some_iff.mp hcut
        refine ⟨_, before, after, Text.trims_trim line, ?_, heq, hbefore,
          Text.trim_eq_iff.mp (String.ofList_injective hword),
          Text.trim_eq_iff.mp (String.ofList_injective hvalue)⟩
        simp only [Bool.or_eq_true, not_or, beq_iff_eq] at hbody
        exact hbody.2

/-- A line is about one word only. -/
lemma Says.word_eq {word' value' : List Char} (h : Says line word value) (h' : Says line word' value') :
    word = word' := by
  have := (says_iff.mp h).symm.trans (says_iff.mp h')
  exact String.ofList_injective (Line.option.inj this).1

lemma Inert.not_sets (h : Inert line) (k : Key) : ¬ Sets line k := by
  rintro ⟨value, hsays⟩
  have hbody := hsays
  obtain ⟨body, before, after, htrims, hhash, rfl, -⟩ := hbody
  cases h with
  | blank hblank =>
    have := (Text.trims_nil_iff.mpr hblank).trim_eq.symm.trans htrims.trim_eq
    simp at this
  | comment text htext =>
    rw [← htrims.trim_eq, htext.trim_eq] at hhash
    exact hhash rfl
  | unsigned hnot => exact hnot (htrims.subset (by simp))
  | unknown word value' hword hunknown => exact hunknown k (hword.word_eq hsays)

/-- A line that is about no option is one of the four kinds. -/
lemma inert_of_not_sets (h : ∀ k, ¬ Sets line k) : Inert line := by
  have htrims := Text.trims_trim line
  cases hbody : Text.trim line with
  | nil => exact .blank (Text.trims_nil_iff.mp (hbody ▸ htrims))
  | cons c body =>
    by_cases hc : c = '#'
    · exact .comment body (by rw [← hc, ← hbody]; exact htrims)
    · cases hcut : Text.cutAt? '=' (Text.trim line) with
      | none =>
        refine .unsigned fun hmem => Text.cutAt?_eq_none_iff.mp hcut ?_
        exact htrims.mem_of_not_blank hmem (by decide)
      | some parts =>
        obtain ⟨before, after⟩ := parts
        obtain ⟨heq, hbefore⟩ := Text.cutAt?_eq_some_iff.mp hcut
        have hsays : Says line (Text.trim before) (Text.trim after) :=
          ⟨_, before, after, htrims, by simp [hbody, hc], heq, hbefore, Text.trims_trim before,
            Text.trims_trim after⟩
        exact .unknown _ _ hsays fun k hk => h k ⟨_, hk ▸ hsays⟩

lemma inert_iff : Inert line ↔ ∀ k, ¬ Sets line k :=
  ⟨Inert.not_sets, inert_of_not_sets⟩

/-! ## What one line does -/

/-- A line about an option sets this option. -/
lemma readLine_of_says (h : Says line k.word.toList value) :
    ∃ x, k.Reads value x ∧ ∀ c, readLine c line = k.set x c := by
  refine ⟨_, k.reads_getD_read? value, fun c => ?_⟩
  rw [readLine, says_iff.mp h, String.ofList_toList]
  cases k <;> rfl

/-- Every other line is passed over. -/
lemma readLine_of_inert (h : Inert line) (c : Config) : readLine c line = c := by
  have hsets := inert_iff.mp h
  unfold readLine
  cases hline : Line.ofText line with
  | skipped => rfl
  | malformed text => rfl
  | option word value =>
    have hword (k : Key) : word ≠ k.word := by
      rintro rfl
      refine hsets k ⟨value.toList, says_iff.mpr ?_⟩
      rw [hline, String.ofList_toList, String.ofList_toList]
    simp only [apply]
    split
    · exact absurd rfl (hword .name)
    · exact absurd rfl (hword .maxCallDepth)
    · exact absurd rfl (hword .checkCancellation)
    · exact absurd rfl (hword .topLevelReturn)
    · exact absurd rfl (hword .traceStatements)
    · rfl

/-- A line is about no option or sets one. -/
lemma inert_or_sets (line : List Char) :
    Inert line ∨ ∃ (k : Key) (value : List Char) (x : k.Carrier), Says line k.word.toList value ∧ k.Reads value x ∧
      ∀ c, readLine c line = k.set x c := by
  by_cases h : ∃ k, Sets line k
  · obtain ⟨k, value, hsays⟩ := h
    obtain ⟨x, hx, hread⟩ := readLine_of_says hsays
    exact .inr ⟨k, value, x, hsays, hx, hread⟩
  · exact .inl (inert_iff.mpr (not_exists.mp h))

/-- A line keeps the options that it is not about. -/
lemma get_readLine (h : ¬ Sets line k) (c : Config) : k.get (readLine c line) = k.get c := by
  rcases inert_or_sets line with hinert | ⟨k', value, x, hsays, -, hread⟩
  · rw [readLine_of_inert hinert]
  · have hk : k ≠ k' := by
      rintro rfl
      exact h ⟨value, hsays⟩
    rw [hread, Key.get_set_of_ne hk]

/-- Two lines that are not about the same option can be read in either order. -/
lemma readLine_comm (h : ∀ k, Sets line k → ¬ Sets line' k) (c : Config) :
    readLine (readLine c line) line' = readLine (readLine c line') line := by
  rcases inert_or_sets line with hinert | ⟨k, value, x, hsays, -, hread⟩
  · rw [readLine_of_inert hinert, readLine_of_inert hinert]
  · rcases inert_or_sets line' with hinert' | ⟨k', value', x', hsays', -, hread'⟩
    · rw [readLine_of_inert hinert', readLine_of_inert hinert']
    · have hk : k ≠ k' := by
        rintro rfl
        exact h k ⟨value, hsays⟩ ⟨value', hsays'⟩
      rw [hread, hread', hread', hread, Key.set_comm hk]

/-! ## What a text does -/

/-- The text with the given lines. -/
def joined (lines : List (List Char)) : String := String.ofList (['\n'].intercalate lines)

lemma ofText_eq (text : String) : ofText text = (text.toList.splitOn '\n').foldl readLine {} := by
  rw [ofText, linesOf, Text.lines_eq_splitOn, List.foldl_map]
  rfl

lemma ofText_joined (h : ∀ l ∈ lines, '\n' ∉ l) : ofText (joined lines) = lines.foldl readLine {} := by
  rw [ofText_eq, joined, String.toList_ofList]
  by_cases hlines : lines = []
  · subst hlines
    rfl
  · rw [List.splitOn_intercalate _ h hlines]

lemma ofText_append_line (text : String) (h : '\n' ∉ line) :
    ofText (text ++ String.ofList ('\n' :: line)) = readLine (ofText text) line := by
  have hline : line.splitOn '\n' = [line] :=
    List.splitOnP_eq_singleton fun c hc => beq_false_of_ne fun heq => h (heq ▸ hc)
  rw [ofText_eq, String.toList_append, String.toList_ofList, List.splitOn,
    List.splitOnP_append_cons _ _ (by decide), List.foldl_append, ofText_eq]
  exact congrArg (List.foldl readLine _) hline

/-- Lines that are not about an option keep it. -/
lemma get_foldl_readLine (h : ∀ l ∈ lines, ¬ Sets l k) (c : Config) :
    k.get (lines.foldl readLine c) = k.get c := by
  induction lines generalizing c with
  | nil => rfl
  | cons l ls ih =>
    rw [List.foldl_cons, ih (fun l' hl' => h l' (List.mem_cons_of_mem _ hl')),
      get_readLine (h l List.mem_cons_self)]

/-- An option has the value that the last line about it gives, and its default if there is none.  So the
lines about no option change nothing, one more line updates at most one option, and lines about different
options can be exchanged. -/
theorem last_line_wins :
    (∀ (text : String) (k : Key),
      (∀ before line after value, text.toList.splitOn '\n' = before ++ line :: after →
        Says line k.word.toList value → (∀ l ∈ after, ¬ Sets l k) →
        k.Reads value (k.get (ofText text))) ∧
      ((∀ l ∈ text.toList.splitOn '\n', ¬ Sets l k) → k.get (ofText text) = k.standard)) ∧
    (∀ line, Inert line ↔ ∀ k, ¬ Sets line k) ∧
    (∀ before line after, (∀ l ∈ before ++ line :: after, '\n' ∉ l) → Inert line →
      ofText (joined (before ++ line :: after)) = ofText (joined (before ++ after))) ∧
    (∀ text line, '\n' ∉ line →
      Inert line ∧ ofText (text ++ String.ofList ('\n' :: line)) = ofText text ∨
      ∃ (k : Key) (value : List Char) (x : k.Carrier), Says line k.word.toList value ∧ k.Reads value x ∧
        ofText (text ++ String.ofList ('\n' :: line)) = k.set x (ofText text)) ∧
    (∀ before line line' after, (∀ l ∈ before ++ line :: line' :: after, '\n' ∉ l) →
      (∀ k, Sets line k → ¬ Sets line' k) →
      ofText (joined (before ++ line :: line' :: after)) =
        ofText (joined (before ++ line' :: line :: after))) := by
  refine ⟨fun text k => ⟨?_, ?_⟩, fun line => inert_iff, ?_, ?_, ?_⟩
  · intro before line after value htext hsays hafter
    obtain ⟨x, hx, hread⟩ := readLine_of_says hsays
    rw [ofText_eq, htext, List.foldl_append, List.foldl_cons, get_foldl_readLine hafter, hread,
      Key.get_set]
    exact hx
  · intro h
    rw [ofText_eq, get_foldl_readLine h]
    rfl
  · intro before line after hlines hinert
    rw [ofText_joined hlines, ofText_joined fun l hl => hlines l (by grind), List.foldl_append,
      List.foldl_append, List.foldl_cons, readLine_of_inert hinert]
  · intro text line hline
    rw [ofText_append_line text hline]
    rcases inert_or_sets line with hinert | ⟨k, value, x, hsays, hx, hread⟩
    · exact .inl ⟨hinert, readLine_of_inert hinert _⟩
    · exact .inr ⟨k, value, x, hsays, hx, hread _⟩
  · intro before line line' after hlines hkeys
    rw [ofText_joined hlines, ofText_joined fun l hl => hlines l (by grind), List.foldl_append,
      List.foldl_append]
    simp only [List.foldl_cons]
    rw [readLine_comm hkeys]

/-- A value that is not valid stands for the default, also after a line with a valid one. -/
theorem last_line_wins_over_valid :
    Key.maxCallDepth.Reads ['x']
      (Key.maxCallDepth.get (ofText "maxcalldepth = 5\nmaxcalldepth = x\n# maxcalldepth = 7")) := by
  refine (last_line_wins.1 _ .maxCallDepth).1 ["maxcalldepth = 5".toList] "maxcalldepth = x".toList
    ["# maxcalldepth = 7".toList] ['x'] (by decide +kernel) (says_iff.mpr (by decide +kernel)) ?_
  intro l hl
  rw [List.mem_singleton.mp hl]
  exact (Inert.comment " maxcalldepth = 7".toList (Text.trim_eq_iff.mp (by decide +kernel))).not_sets _

end ScriptLang.Config
