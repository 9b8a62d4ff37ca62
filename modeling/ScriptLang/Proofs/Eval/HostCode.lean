/-
What code of the host can do.

Code of the host branches over what came of its requests.  A property of it speaks of some way through
the code: a request is made there (`HostCode.Asks`), a fault is not handed on (`HostCode.Handles`), the
code fails with a fault that did not come to it (`HostCode.Raises`), or it refers to a class that it was
not given (`HostCode.Brings`).  A function of the host has such a property if its code has it in some
turn with some call.  Operators of the host can refer to classes in the same way (`OperatorTable.Brings`).
-/
import ScriptLang.Interpreter
import Mathlib.Tactic.Common

namespace ScriptLang

/-! ## Values in requests and answers -/

/-- The values in a request that may go further than to the host. -/
def HostRequest.values : HostRequest → List Value
  | .call callee args => callee :: args
  | .construct id args => .classRef id :: args
  | .getMember target _ => [target]
  | .newArray items => items
  | .newObject properties => properties.map (·.2)
  | .setItems _ items => items
  | .setProperty _ _ value => [value]
  | .setField _ _ value => [value]
  | _ => []

/-- The values in the answer to a request. -/
def HostRequest.answered : (request : HostRequest) → request.Answer → List Value
  | .call _ _, v => [v]
  | .construct _ _, v => [v]
  | .getMember _ _, v => [v]
  | .lookup _, v => [v]
  | .newArray _, v => [v]
  | .newObject _, v => [v]
  | .getItems _, items => items
  | .getProperty _ _, v => v.toList
  | .getField _ _, v => v.toList
  | _, _ => []

/-- Whether a request only looks at values or prints. -/
def HostRequest.isQuiet : HostRequest → Bool
  | .getItems _ => true
  | .getNames _ => true
  | .display _ => true
  | .print _ => true
  | _ => false

/-- The values that a call of a function of the host brings to it. -/
def HostCall.values (call : HostCall) : List Value :=
  call.receiver.toList ++ call.args ++ call.context.this.toList ++
    (call.context.owner.map Value.classRef).toList

/-! ## Ways through the code -/

namespace HostCode

/-- The code can make the request. -/
inductive Asks (request : HostRequest) : HostCode → Prop
  | here {next} : Asks request (.ask request next)
  | later {other next outcome} : Asks request (next outcome) → Asks request (.ask other next)

/-- The code can come to a fault with the cause and do something else than to hand it on. -/
inductive Handles (cause : Cause) : HostCode → Prop
  | here {request next place} : next (.error ⟨cause, place⟩) ≠ .fail ⟨cause, place⟩ →
      Handles cause (.ask request next)
  | later {request next outcome} : Handles cause (next outcome) → Handles cause (.ask request next)

/-- The code can fail with the fault without having come to it before. -/
inductive Raises (fault : Fault) : HostCode → Prop
  | here : Raises fault (.fail fault)
  | later {request next outcome} : outcome ≠ .error fault → Raises fault (next outcome) →
      Raises fault (.ask request next)

/-- The code can refer to the class without having been given it by an answer. -/
inductive Brings (id : ClassId) : HostCode → Prop
  | give : Brings id (.give (.classRef id))
  | here {request next} : .classRef id ∈ request.values → Brings id (.ask request next)
  | later {request next outcome} : (∀ a, outcome = .ok a → .classRef id ∉ request.answered a) →
      Brings id (next outcome) → Brings id (.ask request next)

/-- Code that only looks at values and prints, refers to no class, and fails only because of the type of a
value. -/
inductive Quiet : HostCode → Prop
  | give {v} : (∀ id, v ≠ .classRef id) → Quiet (.give v)
  | fail {reason} : Quiet (.fail ⟨.typeMismatch reason, none⟩)
  | andThen {request next} : request.isQuiet = true → (∀ a, Quiet (next a)) →
      Quiet (.andThen request next)

variable {request other : HostRequest} {next : request.Answer → HostCode} {cause : Cause}
  {fault : Fault} {id : ClassId}

/-! ### Requests one after the other -/

lemma Asks.of_andThen (h : (andThen request next).Asks other) :
    other = request ∨ ∃ a, (next a).Asks other := by
  cases h with
  | here => exact .inl rfl
  | @later _ _ outcome h =>
    cases outcome with
    | ok a => exact .inr ⟨a, h⟩
    | error fault => cases h

lemma Handles.of_andThen (h : (andThen request next).Handles cause) :
    ∃ a, (next a).Handles cause := by
  cases h with
  | here h => exact absurd rfl h
  | @later _ _ outcome h =>
    cases outcome with
    | ok a => exact ⟨a, h⟩
    | error fault => cases h

lemma Raises.of_andThen (h : (andThen request next).Raises fault) : ∃ a, (next a).Raises fault := by
  cases h with
  | @later _ _ outcome hne h =>
    cases outcome with
    | ok a => exact ⟨a, h⟩
    | error fault' =>
      cases h
      exact absurd rfl hne

lemma Brings.of_andThen (h : (andThen request next).Brings id) :
    .classRef id ∈ request.values ∨ ∃ a, .classRef id ∉ request.answered a ∧ (next a).Brings id := by
  cases h with
  | here h => exact .inl h
  | @later _ _ outcome hnew h =>
    cases outcome with
    | ok a => exact .inr ⟨a, hnew a rfl, h⟩
    | error fault => cases h

/-! ### Quiet code -/

namespace Quiet

variable {code : HostCode}

lemma displayAll {vs : List Value} {next : List String → HostCode} (h : ∀ texts, (next texts).Quiet) :
    (displayAll vs next).Quiet := by
  induction vs generalizing next with
  | nil => exact h []
  | cons v vs ih => exact .andThen rfl fun text => ih fun texts => h (text :: texts)

lemma isQuiet_of_asks (h : code.Quiet) (ha : code.Asks request) : request.isQuiet = true := by
  induction h with
  | give | fail => cases ha
  | andThen hquiet _ ih =>
    rcases ha.of_andThen with rfl | ⟨a, ha⟩
    · exact hquiet
    · exact ih a ha

lemma not_handles (h : code.Quiet) : ¬code.Handles cause := by
  intro hc
  induction h with
  | give | fail => cases hc
  | andThen _ _ ih =>
    obtain ⟨a, hc⟩ := hc.of_andThen
    exact ih a hc

lemma of_raises (h : code.Quiet) (hr : code.Raises fault) :
    ∃ reason, fault = ⟨.typeMismatch reason, none⟩ := by
  induction h with
  | give => cases hr
  | fail =>
    cases hr
    exact ⟨_, rfl⟩
  | andThen _ _ ih =>
    obtain ⟨a, hr⟩ := hr.of_andThen
    exact ih a hr

lemma not_brings (h : code.Quiet) : ¬code.Brings id := by
  intro hb
  induction h with
  | give hne =>
    cases hb
    exact hne id rfl
  | fail => cases hb
  | @andThen request next hquiet _ ih =>
    rcases hb.of_andThen with hmem | ⟨a, -, hb⟩
    · cases request with
      | getItems | getNames | display | print => cases hmem
      | _ => cases hquiet
    · exact ih a hb

end Quiet

end HostCode

/-! ## Functions of the host -/

namespace HostFunction

variable (f : HostFunction)

/-- The function can make the request. -/
def Asks (request : HostRequest) : Prop := ∃ turn call, (f.body turn call).Asks request

/-- The function can do something else with a fault of the cause than to hand it on. -/
def Handles (cause : Cause) : Prop := ∃ turn call, (f.body turn call).Handles cause

/-- The function can fail with the fault on its own account. -/
def Raises (fault : Fault) : Prop := ∃ turn call, (f.body turn call).Raises fault

/-- The function can refer to the class without having been given it. -/
def Brings (id : ClassId) : Prop :=
  ∃ turn call, .classRef id ∉ call.values ∧ (f.body turn call).Brings id

/-- The function hands on all faults that come to it. -/
def Relays : Prop := ∀ cause, ¬f.Handles cause

/-- The function can set fields of instances. -/
def SetsFields : Prop := ∃ i key v, f.Asks (.setField i key v)

/-- The function can make instances. -/
def Constructs : Prop := ∃ id args, f.Asks (.construct id args)

end HostFunction

/-! ## Operators of the host -/

namespace OperatorCode

variable {n : Nat}

/-- The values that leave the operator with its next step. -/
def handed : OperatorCode n → List Value
  | .give value => [value]
  | .assign _ value _ => [value]
  | .newArray items _ => items
  | .newObject properties _ => properties.map (·.2)
  | _ => []

/-- The operator can refer to the class without having been given it by an operand. -/
inductive Brings (id : ClassId) : OperatorCode n → Prop
  | here {code} : .classRef id ∈ code.handed → Brings id code
  | evaluated {operand next v} : v ≠ .classRef id → Brings id (next v) →
      Brings id (.evaluate operand next)
  | assigned {operand value next} : Brings id next → Brings id (.assign operand value next)
  | array {items next v} : v ≠ .classRef id → Brings id (next v) → Brings id (.newArray items next)
  | object {properties next v} : v ≠ .classRef id → Brings id (next v) →
      Brings id (.newObject properties next)
  | displayed {value next text} : Brings id (next text) → Brings id (.display value next)

end OperatorCode

/-- An operator of the table can refer to the class without having been given it. -/
inductive OperatorTable.Brings (table : OperatorTable) (id : ClassId) : Prop
  | pre {op code} : table.pre.get? op = some (.ofHost code) → code.Brings id → Brings table id
  | post {op code} : table.post.get? op = some (.ofHost code) → code.Brings id → Brings table id
  | binary {op code} : table.binary.get? op = some (.ofHost code) → code.Brings id → Brings table id
  | ternary {op code} : table.ternary.get? op = some (.ofHost code) → code.Brings id → Brings table id

/-- The operators of the scripting language refer to no classes. -/
lemma OperatorTable.not_brings_standard (id : ClassId) : ¬standard.Brings id := by
  intro h
  cases h with
  | pre hop | post hop | binary hop | ternary hop =>
    have hmem := Table.mem_of_get?_ofList hop
    simp at hmem

/-! ## Functions that every script has -/

namespace Interpreter

variable {f : HostFunction}

lemma quiet_of_mem_builtins (hf : f ∈ builtins) (turn : Nat) (call : HostCall) :
    (f.body turn call).Quiet := by
  simp only [builtins, List.mem_cons, List.not_mem_nil, or_false] at hf
  rcases hf with rfl | rfl | rfl | rfl
  · exact .displayAll fun texts => .andThen rfl fun _ => .give nofun
  · exact .give nofun
  · simp only [HostBody.length]
    split
    · exact .andThen rfl fun _ => .give nofun
    · exact .give nofun
    · exact .andThen rfl fun _ => .give nofun
    · exact .fail
  · exact .andThen rfl fun _ => .give nofun

lemma isQuiet_of_mem_builtins (hf : f ∈ builtins) {request : HostRequest} (h : f.Asks request) :
    request.isQuiet = true := by
  obtain ⟨turn, call, h⟩ := h
  exact (quiet_of_mem_builtins hf turn call).isQuiet_of_asks h

lemma not_setsFields_of_mem_builtins (hf : f ∈ builtins) : ¬f.SetsFields := by
  rintro ⟨i, key, v, h⟩
  cases isQuiet_of_mem_builtins hf h

lemma relays_of_mem_builtins (hf : f ∈ builtins) : f.Relays := by
  rintro cause ⟨turn, call, h⟩
  exact (quiet_of_mem_builtins hf turn call).not_handles h

lemma raises_of_mem_builtins (hf : f ∈ builtins) {fault : Fault} (h : f.Raises fault) :
    ∃ reason, fault = ⟨.typeMismatch reason, none⟩ := by
  obtain ⟨turn, call, h⟩ := h
  exact (quiet_of_mem_builtins hf turn call).of_raises h

lemma not_brings_of_mem_builtins (hf : f ∈ builtins) (id : ClassId) : ¬f.Brings id := by
  rintro ⟨turn, call, -, h⟩
  exact (quiet_of_mem_builtins hf turn call).not_brings h

end Interpreter

end ScriptLang
