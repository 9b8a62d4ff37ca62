/-
Programs whose classes and members are named by identifiers.

What a program calls its classes and members can be read off its code, with the code in functions and in
other classes included (`Code.Identified`).  Code makes functions and classes only from its own pieces, so
wherever such a program runs, all the code that a state holds is of this kind, and every class was made from
a declaration of this kind (`Interpreter.Arises.identified`).

A class of such names keeps its members under identifiers.  The names of the fields behind properties are no
identifiers, and a class keeps nothing under them but these fields (`Class.Identified.get?_hidden`,
`Class.Identified.not_holds_hidden`).
-/
import ScriptLang.Proofs.Class.Creation

namespace ScriptLang

/-! ## Pieces of code -/

/-- A piece of code. -/
inductive Code where
  | expr (e : Expr)
  | stmt (st : Stmt)
  | function (decl : FunctionDecl)
  | classDecl (decl : ClassDecl)

/-- The function behind an accessor. -/
def Accessor.function? : Accessor → Option FunctionDecl
  | .auto => none
  | .custom decl => some decl

namespace MemberForm

/-- The functions in a member of a declaration. -/
def functions : MemberForm → List FunctionDecl
  | .field _ => []
  | .method decl => [decl]
  | .constructor decl => [decl]
  | .property getter setter _ => (getter.toList ++ setter.toList).filterMap Accessor.function?
  | .indexer getter setter => getter.toList ++ setter.toList

/-- The initial value that a member gives to a field. -/
def initial? : MemberForm → Option Expr
  | .field initializer => initializer
  | .property _ _ initializer => initializer
  | _ => none

end MemberForm

/-- What an expression declares. -/
def ExprForm.declarations : ExprForm → List Code
  | .function decl => [.function decl]
  | .classDecl decl => [.classDecl decl]
  | _ => []

/-- What a statement declares. -/
def StmtForm.declarations : StmtForm → List Code
  | .function decl => [.function decl]
  | .classDecl decl => [.classDecl decl]
  | _ => []

/-- What a loop repeats: its body, and for some loops expressions that see the variables of the loop. -/
def StmtForm.repeated : StmtForm → List Code
  | .whileLoop _ body => [.stmt body]
  | .doWhile body _ => [.stmt body]
  | .forLoop _ condition increment body => .stmt body :: (condition.toList ++ increment).map .expr
  | _ => []

namespace Code

/-- The pieces of which a piece of code consists. -/
def parts : Code → List Code
  | .expr e => e.form.parts.map .expr ++ e.form.declarations
  | .stmt st => st.form.parts.map .expr ++ (st.form.branches.map .stmt ++
      ((st.form.blocks.flatMap (·.2)).map .stmt ++ (st.form.repeated ++ st.form.declarations)))
  | .function decl => (decl.parameters.filterMap (·.default)).map .expr ++ decl.body.map .stmt
  | .classDecl decl => decl.members.flatMap fun m =>
      m.form.initial?.toList.map .expr ++ m.form.functions.map .function

/-- A piece of code contains another one, at whatever depth. -/
def Contains : Code → Code → Prop := Relation.ReflTransGen fun p q => q ∈ p.parts

end Code

/-! ## Names -/

/-- Whether a member goes by its own name.  Constructors and indexers do not. -/
def MemberDecl.isNamed (m : MemberDecl) : Bool :=
  match m.form with
  | .constructor _ | .indexer _ _ => false
  | _ => true

/-- The class and its members are named by identifiers. -/
def ClassDecl.Identified (decl : ClassDecl) : Prop :=
  Grammar.IsIdentifier decl.name ∧
    ∀ m ∈ decl.members, m.isNamed = true → Grammar.IsIdentifier m.name

instance (decl : ClassDecl) : Decidable decl.Identified := inferInstanceAs (Decidable (_ ∧ _))

namespace Code

/-- All the classes in a piece of code, and their members, are named by identifiers. -/
def Identified (p : Code) : Prop := ∀ decl, p.Contains (.classDecl decl) → decl.Identified

/-- Whether a piece of code is no class, or one that is named by identifiers. -/
def isIdentified : Code → Bool
  | .classDecl decl => decide decl.Identified
  | _ => true

/-- Looks at the names in a piece of code, down to some depth. -/
def identifiedTo : (depth : Nat) → Code → Bool
  | 0, _ => false
  | depth + 1, p => p.isIdentified && p.parts.all (identifiedTo depth)

variable {p q : Code}

lemma Identified.part (h : p.Identified) (hq : q ∈ p.parts) : q.Identified :=
  fun decl hdecl => h decl (.head hq hdecl)

lemma Identified.names {decl : ClassDecl} (h : (classDecl decl).Identified) : decl.Identified :=
  h decl .refl

/-- A look that goes deep enough sees all the names. -/
lemma identified_of_identifiedTo (depth : Nat) (h : p.identifiedTo depth = true) : p.Identified := by
  induction depth generalizing p with
  | zero => cases h
  | succ depth ih =>
    rw [identifiedTo, Bool.and_eq_true, List.all_eq_true] at h
    obtain ⟨hown, hparts⟩ := h
    intro decl hdecl
    rcases Relation.ReflTransGen.cases_head hdecl with rfl | ⟨q, hq, hrest⟩
    · exact of_decide_eq_true hown
    · exact ih (hparts q hq) decl hrest

section Parts

variable {e e' : Expr} {st st' : Stmt} {decl : FunctionDecl} {cls : ClassDecl} {m : MemberDecl}

lemma Identified.operand (h : (expr e).Identified) (he : e' ∈ e.form.parts) : (expr e').Identified :=
  h.part (List.mem_append_left _ (List.mem_map_of_mem he))

lemma Identified.inStatement (h : (stmt st).Identified) (he : e ∈ st.form.parts) :
    (expr e).Identified :=
  h.part (List.mem_append_left _ (List.mem_map_of_mem he))

lemma Identified.branch (h : (stmt st).Identified) (hst : st' ∈ st.form.branches) :
    (stmt st').Identified :=
  h.part (List.mem_append_right _ (List.mem_append_left _ (List.mem_map_of_mem hst)))

lemma Identified.block (h : (stmt st).Identified) {flow : BlockFlow} {body : List Stmt}
    (hbody : (flow, body) ∈ st.form.blocks) : ∀ st' ∈ body, (stmt st').Identified := by
  intro st' hst'
  refine h.part (List.mem_append_right _ (List.mem_append_right _ (List.mem_append_left _ ?_)))
  exact List.mem_map_of_mem (List.mem_flatMap.mpr ⟨(flow, body), hbody, hst'⟩)

lemma Identified.repeated (h : (stmt st).Identified) (hq : q ∈ st.form.repeated) : q.Identified := by
  refine h.part (List.mem_append_right _ (List.mem_append_right _ (List.mem_append_right _ ?_)))
  exact List.mem_append_left _ hq

lemma Identified.declared (h : (stmt st).Identified) (hq : q ∈ st.form.declarations) :
    q.Identified := by
  refine h.part (List.mem_append_right _ (List.mem_append_right _ (List.mem_append_right _ ?_)))
  exact List.mem_append_right _ hq

lemma Identified.default (h : (function decl).Identified) {p : Parameter} (hp : p ∈ decl.parameters)
    (he : p.default = some e) : (expr e).Identified :=
  h.part (List.mem_append_left _ (List.mem_map_of_mem (List.mem_filterMap.mpr ⟨p, hp, he⟩)))

lemma Identified.body (h : (function decl).Identified) : ∀ st ∈ decl.body, (stmt st).Identified :=
  fun _ hst => h.part (List.mem_append_right _ (List.mem_map_of_mem hst))

lemma Identified.initial (h : (classDecl cls).Identified) (hm : m ∈ cls.members) :
    ∀ e ∈ m.form.initial?, (expr e).Identified := by
  intro e he
  refine h.part (List.mem_flatMap.mpr ⟨m, hm, List.mem_append_left _ ?_⟩)
  exact List.mem_map_of_mem (Option.mem_toList.mpr he)

lemma Identified.function (h : (classDecl cls).Identified) (hm : m ∈ cls.members)
    (hdecl : decl ∈ m.form.functions) : (Code.function decl).Identified :=
  h.part (List.mem_flatMap.mpr ⟨m, hm, List.mem_append_right _ (List.mem_map_of_mem hdecl)⟩)

/-- What a constructor hands to the class above is part of its first statement. -/
lemma Identified.opening (h : (Code.function decl).Identified) (he : e ∈ decl.opening) :
    (expr e).Identified := by
  rcases List.mem_append.mp he with he | he
  · obtain ⟨p, hp, hdefault⟩ := List.mem_filterMap.mp he
    exact h.default hp hdefault
  · have hbody := h.body
    cases hb : decl.body with
    | nil => simp [hb, Evaluator.splitSuperCall] at he
    | cons st rest =>
      rw [hb] at he hbody
      have hst := hbody st List.mem_cons_self
      cases hcall : st.superCall? with
      | none => simp [Evaluator.splitSuperCall, hcall] at he
      | some arguments =>
        have hmem : e ∈ arguments := by simpa [Evaluator.splitSuperCall, hcall] using he
        unfold Stmt.superCall? at hcall
        split at hcall
        next place callee arguments' hform =>
          split at hcall
          · cases hcall
            have hexpr : (expr ⟨place, .call callee arguments⟩).Identified :=
              hst.inStatement (by rw [hform]; exact List.mem_singleton.mpr rfl)
            exact hexpr.operand (List.mem_cons_of_mem _ hmem)
          · cases hcall
        next => cases hcall

end Parts

end Code

/-! ## The code of classes -/

def Method.Identified : Method → Prop
  | .script decl => (Code.function decl).Identified
  | .host _ => True

/-- The methods and accessors of which a member consists. -/
def Member.methods : Member → List Method
  | .method m => [m]
  | m => m.accessors

def Member.Identified (member : Member) : Prop := ∀ m ∈ member.methods, m.Identified

/-- The names under which a class keeps its members. -/
def Class.IsMemberName (name : String) : Prop :=
  Grammar.IsIdentifier name ∨ name = MemberDecl.indexerName

/-- The class and all that it lists are named by identifiers, indexers apart. -/
structure HostClass.Identified (h : HostClass) : Prop where
  name : Grammar.IsIdentifier h.name
  field : ∀ name ∈ h.fields, Grammar.IsIdentifier name
  staticField : ∀ entry ∈ h.staticFields, Grammar.IsIdentifier entry.1
  member : ∀ entry ∈ h.members, Class.IsMemberName entry.2.1 ∧ entry.2.2.Identified

/-- The names in what a class is made from are identifiers. -/
def ClassSource.Identified : ClassSource → Prop
  | .script decl => (Code.classDecl decl).Identified
  | .host h => h.Identified

/-- The class was made from something in which all names are identifiers. -/
def Class.Identified (cls : Class) : Prop :=
  ∃ source : ClassSource, source.Identified ∧ source.Describes cls

lemma Class.Identified.revised {cls cls' : Class} (h : cls.Identified) (hrevised : cls.Revised cls') :
    cls'.Identified := by
  obtain ⟨source, hsource, hdescribes⟩ := h
  refine ⟨source, hsource, ?_⟩
  cases source with
  | script decl =>
    obtain ⟨parent, c, draft, hdraft, hcls⟩ := hdescribes
    exact ⟨parent, c, draft, hdraft, hcls.trans hrevised⟩
  | host description =>
    obtain ⟨made, hmade, hcls⟩ := hdescribes
    exact ⟨made, hmade, hcls.trans hrevised⟩

/-! ## Names of fields behind properties -/

lemma Grammar.IsIdentifier.bracket_not_mem {text : String} (h : IsIdentifier text) :
    '<' ∉ text.toList := by
  have hscan : '<' ∉ text.toList.take (identifier.scan text.toList).2 :=
    Rule.not_mem_take_scan (by decide) _
  rwa [h, ← String.length_toList, List.take_length] at hscan

namespace Class

variable {name p : String}

lemma bracket_mem_hiddenName (p : String) : '<' ∈ (hiddenName p).toList := by simp [hiddenName]

/-- No member goes by the name of a field behind a property. -/
lemma IsMemberName.ne_hiddenName (h : IsMemberName name) (p : String) : name ≠ hiddenName p := by
  have hbracket : '<' ∉ name.toList := by
    rcases h with h | rfl
    · exact h.bracket_not_mem
    · decide
  intro heq
  exact hbracket (heq ▸ bracket_mem_hiddenName p)

lemma IsMemberName.isName (h : IsMemberName name) : IsName name :=
  h.imp_right .inl

lemma isName_hiddenName (h : Grammar.IsIdentifier p) : IsName (hiddenName p) :=
  .inr (.inr ⟨p, h, rfl⟩)

end Class

/-- What is declared goes by the name of a member, or it is the private field behind a property. -/
lemma ClassSource.Identified.declared {source : ClassSource} (h : source.Identified) {side : Side}
    {v : Visibility} {name : String} (hdeclares : source.Declares side v name) :
    Class.IsMemberName name ∨
      v = .isPrivate ∧ ∃ p, Grammar.IsIdentifier p ∧ name = Class.hiddenName p := by
  cases source with
  | host description =>
    rcases hdeclares with ⟨-, ⟨-, hname⟩ | ⟨-, hname⟩ | ⟨m, hm⟩⟩
    · exact .inl (.inl (HostClass.Identified.field h name hname))
    · obtain ⟨entry, hentry, rfl⟩ := List.mem_map.mp hname
      exact .inl (.inl (HostClass.Identified.staticField h entry hentry))
    · exact .inl (HostClass.Identified.member h _ hm).1
  | script decl =>
    obtain ⟨m, hm, -, hentry⟩ := hdeclares
    have hname := (Code.Identified.names h).2 m hm
    cases hform : m.form with
    | constructor => simp [MemberDecl.declared, hform] at hentry
    | indexer =>
      simp only [MemberDecl.declared, hform, List.mem_singleton, Prod.mk.injEq] at hentry
      exact .inl (.inr hentry.2)
    | field | method =>
      simp only [MemberDecl.declared, hform, List.mem_singleton, Prod.mk.injEq] at hentry
      refine .inl (.inl ?_)
      rw [hentry.2]
      exact hname (by simp [MemberDecl.isNamed, hform])
    | property getter setter initializer =>
      have hm : Grammar.IsIdentifier m.name := hname (by simp [MemberDecl.isNamed, hform])
      simp only [MemberDecl.declared, hform, List.mem_cons, Prod.mk.injEq] at hentry
      rcases hentry with ⟨-, rfl⟩ | hentry
      · exact .inl (.inl hm)
      · split at hentry
        · obtain ⟨rfl, rfl⟩ := Prod.mk.inj (List.mem_singleton.mp hentry)
          exact .inr ⟨rfl, m.name, hm, rfl⟩
        · cases hentry

lemma ClassSource.Identified.named {source : ClassSource} (h : source.Identified) : source.Named where
  name := by
    cases source with
    | script decl => exact (Code.Identified.names h).1
    | host description => exact HostClass.Identified.name h
  declared := fun side v name hdeclares => by
    rcases h.declared hdeclares with hname | ⟨-, p, hp, rfl⟩
    · exact hname.isName
    · exact Class.isName_hiddenName hp

namespace MemberDecl

variable {decl : ClassDecl} {m : MemberDecl} {className : String} {entry : String × Member}

/-- The accessors of a hidden field declare nothing. -/
lemma identified_autoGetter (m : MemberDecl) : (Code.function (Draft.autoGetter m)).Identified :=
  Code.identified_of_identifiedTo 4 rfl

lemma identified_autoSetter (m : MemberDecl) : (Code.function (Draft.autoSetter m)).Identified :=
  Code.identified_of_identifiedTo 5 rfl

lemma identified_accessor {auto : FunctionDecl} {accessor : Option Accessor} {method : Method}
    (hauto : (Code.function auto).Identified)
    (hcustom : ∀ f, accessor = some (.custom f) → (Code.function f).Identified)
    (h : accessor.map (Draft.accessor auto) = some method) : method.Identified := by
  obtain ⟨a, ha, rfl⟩ := Option.map_eq_some_iff.mp h
  cases a with
  | auto => exact hauto
  | custom f => exact hcustom f ha

/-- The code of the members of a class comes from its declaration. -/
lemma identified_of_mem_entries (hdecl : (Code.classDecl decl).Identified) (hm : m ∈ decl.members)
    (hentry : entry ∈ m.entries className) : entry.2.Identified := by
  have hcode : ∀ f ∈ m.form.functions, (Code.function f).Identified := fun f hf => hdecl.function hm hf
  cases hform : m.form with
  | field | constructor => simp [entries, hform] at hentry
  | method f =>
    simp only [entries, hform, List.mem_singleton] at hentry
    subst hentry
    intro method hmethod
    obtain rfl := List.mem_singleton.mp hmethod
    exact hcode f (by simp [hform, MemberForm.functions])
  | property getter setter initializer =>
    simp only [entries, hform, List.mem_singleton] at hentry
    subst hentry
    have hcustom : ∀ f, getter = some (.custom f) ∨ setter = some (.custom f) →
        (Code.function f).Identified := by
      intro f hf
      refine hcode f ?_
      rcases hf with rfl | rfl <;> simp [hform, MemberForm.functions, Accessor.function?]
    intro method hmethod
    rcases List.mem_append.mp hmethod with hmethod | hmethod
    · exact identified_accessor (identified_autoGetter m) (fun f hf => hcustom f (.inl hf))
        (Option.mem_toList.mp hmethod)
    · exact identified_accessor (identified_autoSetter m) (fun f hf => hcustom f (.inr hf))
        (Option.mem_toList.mp hmethod)
  | indexer getter setter =>
    simp only [entries, hform, List.mem_singleton] at hentry
    subst hentry
    intro method hmethod
    have hscript : ∃ f, f ∈ getter.toList ++ setter.toList ∧ method = .script f := by
      simp only [Member.methods, Member.accessors, List.mem_append, Option.mem_toList,
        Option.map_eq_some_iff] at hmethod ⊢
      rcases hmethod with ⟨f, hf, rfl⟩ | ⟨f, hf, rfl⟩
      · exact ⟨f, .inl hf, rfl⟩
      · exact ⟨f, .inr hf, rfl⟩
    obtain ⟨f, hf, rfl⟩ := hscript
    exact hcode f (by simpa [hform, MemberForm.functions] using hf)

/-- A class keeps what it declares, fields apart, under the names of members. -/
lemma key_of_mem_entries (hdecl : decl.Identified) (hm : m ∈ decl.members)
    (hentry : entry ∈ m.entries className) :
    ∃ v name, Class.IsMemberName name ∧ entry.1 = Class.key v className name := by
  have hname := hdecl.2 m hm
  cases hform : m.form with
  | field | constructor => simp [entries, hform] at hentry
  | method | property =>
    simp only [entries, hform, List.mem_singleton] at hentry
    exact ⟨m.visibility, m.name, .inl (hname (by simp [isNamed, hform])), by rw [hentry]⟩
  | indexer =>
    simp only [entries, hform, List.mem_singleton] at hentry
    exact ⟨m.visibility, indexerName, .inr rfl, by rw [hentry]⟩

/-- The initial value of a field comes from the declaration. -/
lemma initializer_of_mem_slots {f : Field} (hf : f ∈ m.slots className) :
    f.initializer = m.form.initial? := by
  cases hform : m.form with
  | method | constructor | indexer => simp [slots, hform] at hf
  | field =>
    simp only [slots, hform, List.mem_singleton] at hf
    rw [hf]
    rfl
  | property =>
    simp only [slots, hform] at hf
    split at hf
    · rw [List.mem_singleton.mp hf]
      rfl
    · cases hf

end MemberDecl

namespace ClassDecl

variable {decl : ClassDecl} {side : Side}

lemma exists_member_of_mem_listed {α : Type} {f : MemberDecl → List α} {a : α}
    (h : a ∈ decl.listed side f) : ∃ m ∈ decl.members, a ∈ f m := by
  obtain ⟨m, hm, ha⟩ := List.mem_flatMap.mp h
  exact ⟨m, (List.mem_filter.mp hm).1, ha⟩

lemma identified_of_mem_slotsOn (hdecl : (Code.classDecl decl).Identified) {f : Field}
    (hf : f ∈ decl.slotsOn side) : ∀ e ∈ f.initializer, (Code.expr e).Identified := by
  obtain ⟨m, hm, hslot⟩ := exists_member_of_mem_listed hf
  intro e he
  rw [MemberDecl.initializer_of_mem_slots hslot] at he
  exact hdecl.initial hm e he

lemma identified_of_constructor? (hdecl : (Code.classDecl decl).Identified) {f : FunctionDecl}
    (hf : decl.constructor? = some f) : (Code.function f).Identified := by
  obtain ⟨m, hm, hconstructor⟩ := List.mem_filterMap.mp (List.mem_of_getLast? hf)
  refine hdecl.function hm ?_
  cases hform : m.form with
  | constructor f' =>
    simp only [MemberDecl.constructor?, hform, Option.some.injEq] at hconstructor
    simp [MemberForm.functions, hconstructor]
  | _ => simp [MemberDecl.constructor?, hform] at hconstructor

end ClassDecl

/-! ## What a class holds -/

namespace Class.Identified

variable {cls : Class} {side : Side} {key p a : String} {m : Member}

lemma name (h : cls.Identified) : Grammar.IsIdentifier cls.name := by
  obtain ⟨source, hsource, hdescribes⟩ := h
  rw [hdescribes.name_eq]
  exact hsource.named.name

/-- The members of a class stand under the names of members, and so does their code. -/
lemma member (h : cls.Identified) (hget : (cls.members side).get? key = some m) :
    m.Identified ∧ ∃ v name, IsMemberName name ∧ key = Class.key v cls.name name := by
  obtain ⟨source, hsource, hdescribes⟩ := h
  cases source with
  | script decl =>
    obtain ⟨parent, c, draft, hdraft, hrevised⟩ := hdescribes
    have hmade := ClassDecl.made_of_ofDecl hdraft
    rw [hrevised.members, hmade.members] at hget
    obtain ⟨d, hd, hentry⟩ := ClassDecl.exists_member_of_mem_listed (Table.mem_of_get?_ofList hget)
    rw [hrevised.name, hmade.name]
    exact ⟨MemberDecl.identified_of_mem_entries hsource hd hentry,
      MemberDecl.key_of_mem_entries hsource.names hd hentry⟩
  | host description =>
    obtain ⟨made, hmade, hrevised⟩ := hdescribes
    rw [hrevised.members] at hget
    have hlisted : ∃ other, (other, key, m) ∈ description.members := by
      revert hget
      refine HostClass.toClass_induct hmade (P := fun c => (c.members side).get? key = some m →
        ∃ other, (other, key, m) ∈ description.members) ?_ ?_
      · cases side <;> nofun
      · intro entry hentry c hc hget
        rw [Class.members_addMember] at hget
        split at hget
        · rw [Table.get?_insert] at hget
          split at hget
          next heq =>
            cases hget
            exact ⟨entry.1, heq ▸ hentry⟩
          next => exact hc hget
        · exact hc hget
    obtain ⟨other, hmem⟩ := hlisted
    obtain ⟨hname, hcode⟩ := HostClass.Identified.member hsource _ hmem
    exact ⟨hcode, .isPublic, key, hname, rfl⟩

/-- Under the private key of a field behind a property there is no member. -/
lemma get?_hidden (h : cls.Identified) (hp : Grammar.IsIdentifier p) (ha : ':' ∉ a.toList) :
    (cls.members side).get? (Class.key .isPrivate a (hiddenName p)) = none := by
  cases hget : (cls.members side).get? (Class.key .isPrivate a (hiddenName p)) with
  | none => rfl
  | some m =>
    obtain ⟨-, v, name, hname, hkey⟩ := h.member hget
    have heq := (key_inj ha h.name.colon_not_mem (isName_hiddenName hp) hname.isName hkey).2.1
    exact absurd heq.symm (hname.ne_hiddenName p)

/-- Under the public and the protected key of such a field there is nothing at all. -/
lemma not_holds_hidden (h : cls.Identified) (hp : Grammar.IsIdentifier p) {v : Visibility}
    (hv : v ≠ .isPrivate) : ¬cls.Holds side (Class.key v "" (hiddenName p)) := by
  obtain ⟨source, hsource, hdescribes⟩ := h
  rw [hdescribes.holds_key_iff hsource.named (isName_hiddenName hp) (by decide)]
  rintro ⟨hdeclares, -⟩
  rcases hsource.declared hdeclares with hname | ⟨hprivate, -⟩
  · exact hname.ne_hiddenName p rfl
  · exact hv hprivate

/-- The code that runs when an instance is set up comes from the declaration. -/
lemma opening (h : cls.Identified) {e : Expr} (he : e ∈ cls.opening) : (Code.expr e).Identified := by
  obtain ⟨source, hsource, hdescribes⟩ := h
  cases source with
  | script decl =>
    obtain ⟨parent, c, draft, hdraft, hrevised⟩ := hdescribes
    have hmade := ClassDecl.made_of_ofDecl hdraft
    rw [Class.opening, hrevised.origin, hmade.origin, hrevised.instanceFields, hmade.instanceFields] at he
    rcases List.mem_append.mp he with he | he
    · cases hc : decl.constructor? with
      | none => simp [hc] at he
      | some f =>
        simp only [hc] at he
        exact (ClassDecl.identified_of_constructor? hsource hc).opening he
    · obtain ⟨f, hf, hinitializer⟩ := List.mem_filterMap.mp he
      exact ClassDecl.identified_of_mem_slotsOn hsource hf e hinitializer
  | host description =>
    -- The fields that a host lists have no initial values.
    obtain ⟨made, hmade, hrevised⟩ := hdescribes
    have hempty : made.opening = [] := by
      refine HostClass.toClass_induct hmade (P := fun c => c.opening = []) ?_ fun entry _ c hc => ?_
      · simp [Class.opening]
      · rw [← hc]
        cases entry.1 <;> rfl
    have hsame : cls.opening = made.opening := by
      rw [Class.opening, Class.opening, hrevised.origin, hrevised.instanceFields]
    rw [hsame, hempty] at he
    cases he

lemma constructor (h : cls.Identified) {closure : Context} {constructor : Option FunctionDecl}
    (horigin : cls.origin = .script closure constructor) :
    ∀ f ∈ constructor, (Code.function f).Identified := by
  obtain ⟨source, hsource, hdescribes⟩ := h
  cases source with
  | script decl =>
    obtain ⟨parent, c, draft, hdraft, hrevised⟩ := hdescribes
    have hscript := hrevised.origin.symm.trans horigin
    rw [(ClassDecl.made_of_ofDecl hdraft).origin] at hscript
    cases hscript
    intro f hf
    exact ClassDecl.identified_of_constructor? hsource hf
  | host description =>
    obtain ⟨made, hmade, hrevised⟩ := hdescribes
    have hhost : made.origin = .host description.constructor := by
      refine HostClass.toClass_induct hmade (P := fun c => c.origin = .host description.constructor) rfl
        fun entry _ c hc => ?_
      rw [← hc]
      cases entry.1 <;> rfl
    rw [hrevised.origin, hhost] at horigin
    cases horigin

end Class.Identified

/-! ## The code of a state -/

def Function.Identified : Function → Prop
  | .script decl _ => (Code.function decl).Identified
  | .host _ => True
  | .bound _ m _ => m.Identified

/-- In all the code that a state holds, classes and members are named by identifiers, and so they were in
what the classes were made from. -/
structure State.Identified (s : State) : Prop where
  function : ∀ id f, s.heap.function? id = some f → f.Identified
  cls : ∀ id cls, s.registry.get? id = some cls → cls.Identified

/-- So they are in the code that a task runs. -/
def Task.Identified : Task → Prop
  | .evaluate _ e => (Code.expr e).Identified
  | .assign _ e _ => (Code.expr e).Identified
  | .execute _ st => (Code.stmt st).Identified
  | .sequence _ body => ∀ st ∈ body, (Code.stmt st).Identified
  | .invoke _ decl _ => (Code.function decl).Identified
  | _ => True

namespace State.Identified

variable {s s' : State}

/-- At the start there are no functions and no classes. -/
lemma initial (config : Config) (services : Services) : (State.opened { config, services }).Identified := by
  refine ⟨fun id f hf => ?_, fun id cls hcls => ?_⟩
  · simp [State.opened, Heap.function?] at hf
  · simp [State.opened, Registry.get?] at hcls

lemma addFunction (hs : s.Identified) {f : Function} (hf : f.Identified) :
    (s.withHeap (s.heap.addFunction f).2).Identified := by
  refine ⟨fun id f' hget => ?_, hs.cls⟩
  simp only [withHeap, Heap.function?, Heap.addFunction, Array.getElem?_push] at hget
  split at hget
  · cases hget
    exact hf
  · exact hs.function id f' hget

lemma register (hs : s.Identified) {cls : Class} (hcls : cls.Identified) :
    (s.withRegistry (s.registry.insert cls).2).Identified := by
  refine ⟨hs.function, fun id cls' hget => ?_⟩
  simp only [withRegistry, Registry.get?_insert] at hget
  split at hget
  · cases hget
    exact hcls
  · exact hs.cls id cls' hget

/-- Where a state grows by a field of a class, the class is made from the same. -/
lemma setStaticField (hs : s.Identified) {id : ClassId} {key : String} {v : Value}
    (hgrows : s.Grows (s.withRegistry (s.registry.modify id (·.setField key v)))) :
    (s.withRegistry (s.registry.modify id (·.setField key v))).Identified := by
  refine ⟨hs.function, fun id' cls' hget => ?_⟩
  have hbefore : (s.registry.get? id').isSome := by
    have hlt := Registry.lt_size_of_get? hget
    exact Registry.isSome_get?_of_lt (by simpa [withRegistry, Registry.modify, Registry.size] using hlt)
  obtain ⟨cls, hcls⟩ := Option.isSome_iff_exists.mp hbefore
  obtain ⟨cls'', hget', hrevised⟩ := hgrows.cls hcls
  cases hget.symm.trans hget'
  exact (hs.cls id' cls hcls).revised hrevised

end State.Identified

section Steps

variable {K : State → State → Prop} {V : Value → State → Prop} {t t' : Task} {c : Context}
  {s s' s₀ : State}

lemma Sees.identified {V : Value → Prop} {target : Target} {name : String} {owner : ClassId}
    {member : Member} (hs : s.Identified) (h : Sees V c s target name (.member owner member)) :
    member.Identified := by
  obtain ⟨caller, -, hsearch⟩ := h.search
  obtain ⟨cls, key, -, hcls, hmember, -⟩ := Registry.member_of_search hsearch
  exact ((hs.cls owner cls hcls).member hmember).1

lemma Callable.identified {V : Value → Prop} {owner : ClassId} {m : Method} {receiver : Option Value}
    (hs : s.Identified) (h : Callable V c s owner m receiver) : m.Identified := by
  cases h with
  | taken hid => exact hs.function _ _ hid
  | @accessor _ _ _ member _ hsees hm =>
    refine hsees.identified hs m ?_
    cases member with
    | method => cases hm
    | property | indexer => exact hm

lemma Task.MakesFunction.identified {decl : FunctionDecl} (h : t.MakesFunction c decl)
    (ht : t.Identified) : (Code.function decl).Identified := by
  cases h with
  | @expression _ e _ hform =>
    have he : (Code.expr e).Identified := ht
    exact he.part (List.mem_append_right _ (by rw [hform]; exact List.mem_singleton.mpr rfl))
  | @statement _ st _ hform =>
    have hst : (Code.stmt st).Identified := ht
    exact hst.declared (by rw [hform]; exact List.mem_singleton.mpr rfl)

lemma Task.MakesClass.identified {decl : ClassDecl} (h : t.MakesClass c decl) (ht : t.Identified) :
    (Code.classDecl decl).Identified := by
  cases h with
  | @expression _ e _ hform =>
    have he : (Code.expr e).Identified := ht
    exact he.part (List.mem_append_right _ (by rw [hform]; exact List.mem_singleton.mpr rfl))
  | @statement _ st _ hform =>
    have hst : (Code.stmt st).Identified := ht
    exact hst.declared (by rw [hform]; exact List.mem_singleton.mpr rfl)

/-- No change brings in code with other names. -/
theorem Change.identified (hK : ∀ s s', K s s' → s.Grows s') (h : Change K V t s₀ s s')
    (hs : s.Identified) (ht : t.Identified) : s'.Identified := by
  have hgrows := h.grows hK
  cases h with
  | closure hmakes => exact hs.addFunction (f := .script _ _) (hmakes.identified ht)
  | @taken _ _ _ _ _ m _ _ _ hsees =>
    exact hs.addFunction (f := .bound _ _ _) (hsees.identified hs m (List.mem_singleton.mpr rfl))
  | @registered _ c decl parent draft _ _ hmakes hdraft =>
    exact hs.register ⟨.script decl, hmakes.identified ht, parent, c, draft, hdraft, .refl _⟩
  | staticSetUp | staticWritten => exact hs.setStaticField hgrows
  | reserved | labelled | declared | parameter | assigned | array | object | element | property
  | fieldSetUp | fieldWritten | fieldOfHost | printed | cancelled | turned => exact ⟨hs.function, hs.cls⟩

/-- What a step evaluates is part of its code, or of a class that is set up. -/
lemma Task.Evaluates.identified {e : Expr} (h : t.Evaluates s₀ c e) (hs₀ : s₀.Identified)
    (ht : t.Identified) : (Code.expr e).Identified := by
  cases h with
  | operand he | target he => exact Code.Identified.operand ht he
  | inStatement he => exact Code.Identified.inStatement ht he
  | inLoop hform he =>
    refine Code.Identified.repeated ht ?_
    rw [hform]
    exact List.mem_cons_of_mem _ (List.mem_map_of_mem he)
  | default hp he => exact Code.Identified.default ht hp he
  | opening hcls _ he => exact (hs₀.cls _ _ hcls).opening he

/-- So is a turn of a loop. -/
lemma Stmt.identified_turn {body : Stmt} (h : (Code.stmt body).Identified) (block : Context) :
    (body.turn block).Identified := by
  unfold Stmt.turn
  split
  next statements hform =>
    have hblock : (BlockFlow.plain, statements) ∈ body.form.blocks := by
      rw [hform]
      exact List.mem_singleton.mpr rfl
    exact h.block hblock
  next => exact h

lemma Calls.identified {V : Value → Prop} (h : Calls V c s t') (hs : s.Identified) : t'.Identified := by
  cases h with
  | function hid => exact hs.function _ _ hid
  | method hcallable => exact hcallable.identified hs
  | hostFunction | hostMethod => trivial

/-- The code of all the tasks to which a step leads is named by identifiers. -/
theorem Lead.identified (h : Lead K V t s₀ s t' s') (hs₀ : s₀.Identified) (hs : s.Identified)
    (ht : t.Identified) : t'.Identified := by
  cases h with
  | evaluate he => exact he.identified hs₀ ht
  | @initializer _ _ draft _ key e _ _ _ hmade hkey =>
    obtain ⟨decl, parent, hmakes, hdraft⟩ := hmade.declared
    rw [(Draft.statics_of_ofDecl hdraft).2] at hkey
    obtain ⟨f, hf, hinitial⟩ := List.mem_filterMap.mp hkey
    obtain ⟨e', he', heq⟩ := Option.map_eq_some_iff.mp hinitial
    cases heq
    exact ClassDecl.identified_of_mem_slotsOn (hmakes.identified ht) hf e he'
  | assign hassigns =>
    cases hassigns with
    | operand he | element he => exact Code.Identified.operand ht he
  | branch hst => exact Code.Identified.branch ht hst
  | block hbody => exact Code.Identified.block ht hbody
  | @turn c st around body scope _ _ _ hturns =>
    refine Stmt.identified_turn (Code.Identified.repeated ht ?_) _
    generalize st.form = form at hturns
    cases hturns with
    | whileLoop | doWhile => exact List.mem_singleton.mpr rfl
    | forLoop => exact List.mem_cons_self
  | listed _ hst => exact ht _ hst
  | called _ hcalls => exact hcalls.identified hs
  | body => exact Code.Identified.body ht
  | @constructor _ _ _ _ cls _ constructor _ rest _ _ hcls horigin hrest =>
    intro st hst
    have hmem := hrest.subset hst
    cases constructor with
    | none => cases hmem
    | some f => exact ((hs₀.cls _ _ hcls).constructor horigin f rfl).body st hmem
  | constructed | parent | hostConstructor | callBack | memberForHost => trivial

end Steps

/-! ## Runs -/

/-- The regime of code in which classes and members are named by identifiers. -/
def Regime.identified : Regime where
  Good := State.Identified
  Kept := fun s s' => s.Grows s' ∧ s'.Identified
  Near := fun s s' => s.Grows s' ∧ s'.Identified
  Knows := fun _ _ => True
  Does := fun _ _ t => t.Identified
  Stalls := fun _ => True
  refl := fun hs => ⟨.refl _, hs⟩
  trans := fun h h' => ⟨h.1.trans h'.1, h'.2⟩
  good := And.right
  near := id
  near_trans := fun h h' => ⟨h.1.trans h'.1, h'.2⟩
  grows := And.left
  opened := fun hs => ⟨.opened _, hs.function, hs.cls⟩
  entered := fun hs => ⟨hs.function, hs.cls⟩
  left := fun h => ⟨.left h.1, h.2.function, h.2.cls⟩
  near_left := fun h => ⟨.left h.1, h.2.function, h.2.cls⟩
  knows := fun _ _ => trivial
  registered := fun _ _ => trivial
  stored := fun _ _ _ _ => trivial
  given := fun _ _ _ _ _ => trivial
  brought := fun _ _ _ => trivial
  operated := fun _ _ => trivial
  handled := fun _ _ h => h
  change := fun hs h => ⟨h.grows fun _ _ => And.left, h.identified (fun _ _ => And.left) hs.kept.2 hs.does⟩
  lead := fun {_ _ _ s _ _} hs h => by
    refine ⟨?_, h.identified hs.start hs.kept.2 hs.does⟩
    rcases h.enters with rfl | ⟨c, id, args, -, rfl⟩
    · exact hs.kept.2
    · exact ⟨hs.kept.2.function, hs.kept.2.cls⟩
  constructed := fun _ h _ => ⟨(State.Grows.withInstance _ _).trans h.1, h.2⟩
  abandoned := fun _ h => ⟨(State.Grows.withInstance _ _).trans h.1, h.2⟩
  exhausted := fun _ _ => trivial
  endless := fun _ _ => trivial
  stalls_left := id
  halting := .inl fun _ _ => trivial

namespace Interpreter

/-- A host may hand in any functions and values. -/
def anyTerms : Terms := ⟨fun _ => True, fun _ _ => True⟩

/-- The states that come up where classes and members are named by identifiers: in a new interpreter, after
the host has handed something in, after some code was run, and at any part of such a run. -/
inductive Arises : State → Prop
  | start {config services s} : start config services = .ok s → Arises s
  | defineFunction {s} (f : HostFunction) : Arises s → Arises ((defineFunction f).after s)
  | defineClass {s} {h : HostClass} : Arises s → h.Identified → Arises ((defineClass h).after s)
  | setGlobal {s} (name : String) (v : Value) : Arises s → Arises ((setGlobal name v).after s)
  | cancel {s} : Arises s → Arises { s with cancelled := true }
  | performed {s t} (n : Nat) : Arises s → t.Identified →
      Arises (((Evaluator.within n).perform t).after s)
  | part {s t n trail k t' s'} : Arises s → t.Identified →
      Part n (fun ev => ev.perform t) s trail k t' s' → Arises s'

/-- What a host hands in keeps the names, if its classes do. -/
lemma prepares_identified : Prepares anyTerms HostClass.Identified State.Identified where
  registered := fun _ => trivial
  declared := fun hs _ => ⟨hs.function, hs.cls⟩
  function := fun hs _ => hs.addFunction (f := .host _) trivial
  cls := fun {_ h cls} hs hh _ _ hcls => hs.register ⟨.host h, hh, cls, hcls, .refl _⟩

/-- All the code that there is, and all that the classes were made from, is named by identifiers. -/
theorem Arises.identified {s : State} (h : Arises s) : s.Identified := by
  induction h with
  | start hstart =>
    exact prepares_identified.start (fun _ _ => trivial) (.initial _ _) hstart
  | defineFunction f _ ih => exact prepares_identified.defineFunction ih trivial
  | defineClass _ hh ih => exact prepares_identified.defineClass ih hh fun _ _ _ _ => trivial
  | setGlobal name v _ ih => exact prepares_identified.setGlobal ih fun _ _ => trivial
  | cancel _ ih => exact ⟨ih.function, ih.cls⟩
  | @performed s t n _ ht ih =>
    have hleft := (Evaluator.within_heeds .identified n).perform t s ih ht
    exact (Regime.identified.near_after hleft).2
  | part _ ht hpart ih =>
    refine (hpart.allowed .identified fun t' s' ha => ?_).1
    obtain ⟨rfl, rfl⟩ := Evaluator.asks_perform ha
    exact ⟨ih, ht⟩

end Interpreter

end ScriptLang
