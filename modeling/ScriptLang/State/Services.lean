/-
Services: what a host can exchange.

A host chooses how the values written in a script are made, which operators there are, and how names
are kept.
-/
import ScriptLang.Operator

namespace ScriptLang

/-! ## Making values -/

/-- The value that a literal stands for. -/
def Literal.value : Literal → Value
  | .null => .null
  | .boolean b => .boolean b
  | .number n => .number n
  | .text s => .text s

/-- A value that a literal can stand for. -/
def Value.IsLiteral (v : Value) : Prop := ∃ l : Literal, v = l.value

/-- How the values written in a script are made.  They are made of what is written and of literals. -/
structure Creator where
  /-- The literal that is taken for a literal. -/
  exchange : Literal → Literal := id
  /-- The elements of an array. -/
  items : List Value → List Value := id
  /-- The properties of an object, of which later ones win. -/
  properties : List (String × Value) → List (String × Value) := id
  /-- The value for a class. -/
  classValue : ClassId → Value := .classRef
  items_from : ∀ written, ∀ v ∈ items written, v ∈ written ∨ v.IsLiteral := by exact fun _ _ => .inl
  properties_from : ∀ written, ∀ p ∈ properties written, p ∈ written ∨ p.2.IsLiteral := by
    exact fun _ _ => .inl
  classValue_from : ∀ id, classValue id = .classRef id ∨ (classValue id).IsLiteral := by
    exact fun _ => .inl rfl

namespace Creator

/-- All values are made as they are written. -/
def plain : Creator := {}

/-- The value for a literal. -/
def literal (c : Creator) (l : Literal) : Value := (c.exchange l).value

/-- The value for a missing value. -/
def null (c : Creator) : Value := c.literal .null

end Creator

/-! ## Keeping names -/

/-- How names are kept. -/
structure Naming where
  /-- The name under which a name is kept. -/
  keep : String → String := id
  /-- Why a name cannot be declared, if it cannot. -/
  refusal? : String → Option String := fun _ => none

/-- Names are kept as they are. -/
def Naming.exact : Naming := {}

/-- What a host can exchange. -/
structure Services where
  creator : Creator := .plain
  operators : OperatorTable := .standard
  naming : Naming := .exact

end ScriptLang
