/-
Keys tell members apart.

The members and fields of one side of a class share one space of keys, with the names of indexers and of the
fields behind properties among them.  For names of these kinds a key says who can see the member, what it is
called and, if it is private, which class it belongs to (`Class.key_eq_iff`).  So a key is taken only by a member of
the same name and visibility, both while a class is declared (`Draft.ensureFree_iff`) and in the finished class
(`ClassSource.Describes.existsUnique_declared`), and the public and the protected key of a name lead to no
private member (`keys_are_unambiguous`).
-/
import ScriptLang.Proofs.Class.Drafts

namespace ScriptLang

namespace Class

variable {a b name other : String} {v v' : Visibility}

/-- Only private keys carry the name of a class. -/
lemma key_of_ne_private (hv : v ≠ .isPrivate) (a b name : String) : key v a name = key v b name := by
  cases v with
  | isPublic | isProtected => rfl
  | isPrivate => exact absurd rfl hv

/-- **Keys are unambiguous.** -/
lemma key_eq_iff (ha : ':' ∉ a.toList) (hb : ':' ∉ b.toList) (hname : IsName name) (hother : IsName other) :
    key v a name = key v' b other ↔
      v = v' ∧ name = other ∧ (v = .isPrivate → v' = .isPrivate → a = b) := by
  constructor
  · intro h
    obtain ⟨hv, hsame, hclass⟩ := key_inj ha hb hname hother h
    exact ⟨hv, hsame, fun hprivate _ => hclass hprivate⟩
  · rintro ⟨rfl, rfl, hclass⟩
    by_cases hv : v = .isPrivate
    · rw [hclass hv hv]
    · exact key_of_ne_private hv a b name

end Class

namespace ClassSource

variable {source : ClassSource} {cls : Class} {side : Side}

lemma Describes.colon_not_mem (h : source.Describes cls) (hnamed : source.Named) : ':' ∉ cls.name.toList := by
  rw [h.name_eq]
  exact hnamed.name.colon_not_mem

/-- What a class holds under a key was declared under one name, with one visibility. -/
lemma Describes.existsUnique_declared (h : source.Describes cls) (hnamed : source.Named) {key : String}
    (hkey : cls.Holds side key) :
    ∃! p : Visibility × String, source.Declares side p.1 p.2 ∧ key = Class.key p.1 cls.name p.2 := by
  have hcls := h.colon_not_mem hnamed
  obtain ⟨v, name, hdeclares, rfl⟩ := h.holds_iff.mp hkey
  refine ⟨(v, name), ⟨hdeclares, rfl⟩, ?_⟩
  rintro ⟨v', other⟩ ⟨hother, hsame⟩
  obtain ⟨rfl, rfl, -⟩ := (Class.key_eq_iff hcls hcls (hnamed.declared _ _ _ hdeclares)
    (hnamed.declared _ _ _ hother)).mp hsame
  rfl

end ClassSource

/-- While a class is declared, a key is free unless the name was declared with the same visibility. -/
lemma Draft.ensureFree_iff {decl : ClassDecl} {parent : Option ClassId} {c : Context} {draft : Draft}
    (h : ofDecl decl parent c = .ok draft) (hnamed : (ClassSource.script decl).Named) (side : Side)
    (v : Visibility) {name : String} (hname : Class.IsName name) :
    draft.ensureFree side (Class.key v draft.name name) name = .ok () ↔
      ¬(ClassSource.script decl).Declares side v name := by
  have hcls : ':' ∉ decl.name.toList := hnamed.name.colon_not_mem
  have htaken : Class.key v decl.name name ∈ decl.keysOn side ↔
      (ClassSource.script decl).Declares side v name := by
    rw [ClassDecl.mem_keysOn]
    constructor
    · rintro ⟨m, hm, hside, ⟨v', other⟩, hentry, hkey⟩
      have hother := hnamed.declared side v' other ⟨m, hm, hside, hentry⟩
      obtain ⟨rfl, rfl, -⟩ := (Class.key_eq_iff hcls hcls hname hother).mp hkey
      exact ⟨m, hm, hside, hentry⟩
    · rintro ⟨m, hm, hside, hentry⟩
      exact ⟨m, hm, hside, (v, name), hentry, rfl⟩
  rw [ensureFree_eq h, name_of_ofDecl h, ← htaken]
  by_cases hkey : Class.key v decl.name name ∈ decl.keysOn side <;> simp [hkey]

/-- **Keys are unambiguous.**  For classes that are named by identifiers, and for names that are identifiers, the
name of indexers and the names of fields behind properties, two keys are the same only for the same name and
visibility, and for private names only in classes of the same name.  So a class that is being declared refuses
a key only for a member of the same name and visibility, each key of a finished class stands for one declared
name with one visibility, and the public and the protected key of a name never lead to what is private. -/
theorem keys_are_unambiguous :
    (∀ v v' a b name other, Grammar.IsIdentifier a → Grammar.IsIdentifier b → Class.IsName name →
      Class.IsName other → (Class.key v a name = Class.key v' b other ↔
        v = v' ∧ name = other ∧ (v = .isPrivate → v' = .isPrivate → a = b))) ∧
    (∀ decl parent c draft, Draft.ofDecl decl parent c = .ok draft → (ClassSource.script decl).Named →
      ∀ side v name, Class.IsName name →
        (draft.ensureFree side (Class.key v draft.name name) name = .ok () ↔
          ¬(ClassSource.script decl).Declares side v name)) ∧
    ∀ source cls side, ClassSource.Describes cls source → source.Named →
      (∀ key, cls.Holds side key →
        ∃! p : Visibility × String, source.Declares side p.1 p.2 ∧ key = Class.key p.1 cls.name p.2) ∧
      ∀ v a name, v ≠ .isPrivate → Class.IsName name → cls.Holds side (Class.key v a name) →
        source.Declares side v name ∧ ∀ other, source.Declares side .isPrivate other →
          Class.key .isPrivate cls.name other ≠ Class.key v a name := by
  refine ⟨fun v v' a b name other ha hb => Class.key_eq_iff ha.colon_not_mem hb.colon_not_mem,
    fun decl parent c draft hdraft hnamed side v name => Draft.ensureFree_iff hdraft hnamed side v,
    fun source cls side hdescribes hnamed => ⟨fun key => hdescribes.existsUnique_declared hnamed, ?_⟩⟩
  intro v a name hv hname hholds
  have hcls := hdescribes.colon_not_mem hnamed
  rw [Class.key_of_ne_private hv a cls.name] at hholds ⊢
  refine ⟨((hdescribes.holds_key_iff hnamed hname hcls).mp hholds).1, fun other hother hsame => ?_⟩
  exact hv ((Class.key_eq_iff hcls hcls (hnamed.declared _ _ _ hother) hname).mp hsame).1.symm

/-- A class with one name at all three visibilities, a field behind a property and an indexer. -/
def threefoldDecl : ClassDecl :=
  ⟨"A", none,
    [⟨"x", .isPublic, false, .method ⟨some "x", [], [], ⟨2, 3⟩⟩, ⟨2, 3⟩⟩,
      ⟨"x", .isProtected, false, .field none, ⟨3, 3⟩⟩,
      ⟨"x", .isPrivate, false, .field none, ⟨4, 3⟩⟩,
      ⟨"p", .isPublic, false, .property (some .auto) none none, ⟨5, 3⟩⟩,
      ⟨"[]", .isPublic, false, .indexer none none, ⟨6, 3⟩⟩], ⟨1, 1⟩⟩

lemma named_threefoldDecl : (ClassSource.script threefoldDecl).Named := by
  have hx : Class.IsName "x" := .inl (by decide +kernel)
  have hp : Grammar.IsIdentifier "p" := by decide +kernel
  have hlist : threefoldDecl.members.flatMap MemberDecl.declared =
      [(.isPublic, "x"), (.isProtected, "x"), (.isPrivate, "x"), (.isPublic, "p"), (.isPrivate, "<p>"),
        (.isPublic, "[]")] := rfl
  have hnames : ∀ entry ∈ threefoldDecl.members.flatMap MemberDecl.declared, Class.IsName entry.2 := by
    simp only [hlist, List.forall_mem_cons]
    exact ⟨hx, hx, hx, .inl hp, .inr (.inr ⟨"p", hp, rfl⟩), .inr (.inl rfl), List.forall_mem_nil _⟩
  refine ⟨by decide +kernel, fun side v name hdeclares => ?_⟩
  obtain ⟨m, hm, -, hentry⟩ := hdeclares
  exact hnames (v, name) (List.mem_flatMap.mpr ⟨m, hm, hentry⟩)

/-- The class has all of them.  The key of the field behind the property stands for nothing else, and the public
key of the name is not the private one. -/
theorem keys_are_unambiguous_threefold :
    ∃ cls, (ClassSource.script threefoldDecl).Describes cls ∧ (ClassSource.script threefoldDecl).Named ∧
      cls.Holds .ofInstance "x" ∧ cls.Holds .ofInstance "#x" ∧ cls.Holds .ofInstance "A::x" ∧
      (∃! p : Visibility × String, (ClassSource.script threefoldDecl).Declares .ofInstance p.1 p.2 ∧
        "A::<p>" = Class.key p.1 cls.name p.2) ∧
      Class.key .isPrivate cls.name "x" ≠ Class.key .isPublic "" "x" := by
  have hx : Class.IsName "x" := .inl (by decide +kernel)
  obtain ⟨draft, hdraft⟩ : ∃ draft, Draft.ofDecl threefoldDecl none Interpreter.root = .ok draft := ⟨_, rfl⟩
  have hdescribes : (ClassSource.script threefoldDecl).Describes (draft.finish Interpreter.root) :=
    ⟨none, Interpreter.root, draft, hdraft, .refl _⟩
  have hholds : ∀ v name, (∃ m ∈ threefoldDecl.members, Side.ofStatic m.isStatic = .ofInstance ∧
      (v, name) ∈ m.declared) → (draft.finish Interpreter.root).Holds .ofInstance (Class.key v "A" name) := by
    intro v name hdeclares
    exact hdescribes.holds_iff.mpr ⟨v, name, hdeclares, by rw [hdescribes.name_eq]; rfl⟩
  have hpublic := hholds .isPublic "x" (by decide +kernel)
  have hprivate : (ClassSource.script threefoldDecl).Declares .ofInstance .isPrivate "x" :=
    ⟨_, .tail _ (.tail _ (.head _)), rfl, .head _⟩
  obtain ⟨hunique, haccess⟩ := keys_are_unambiguous.2.2 _ _ .ofInstance hdescribes named_threefoldDecl
  exact ⟨_, hdescribes, named_threefoldDecl, hpublic, hholds .isProtected "x" (by decide +kernel),
    hholds .isPrivate "x" (by decide +kernel),
    hunique _ (hholds .isPrivate (Class.hiddenName "p") (by decide +kernel)),
    (haccess .isPublic "" "x" nofun hx hpublic).2 "x" hprivate⟩

end ScriptLang
