/-
The text of a value and its unfolding.

A reference to an array or an object is written as what stands behind it, and so on from there.  On a heap
in which containers lead back to themselves this would never end, so the writer leaves out a container that
is being written further up (`Heap.Written`).  The rule has no bound on the depth: along a path every
container is written at most once, and that is all that the writer needs to come to an end
(`Heap.written_displayWithin`).

What is left out are cycles and nothing else.  A value that leads to no cycle has an unfolding, in which
every reference is written out, however many references there are to one container (`Heap.Unfolds`).  The
text of the value is this unfolding, and a value that leads to a cycle has none
(`Heap.display_elides_only_cycles`).
-/
import ScriptLang.Heap
import Mathlib.Data.List.Perm.Subperm
import Mathlib.Logic.Relation

namespace ScriptLang

/-! ## Containers and what they refer to -/

/-- The container that a value refers to. -/
def Value.container? : Value → Option Heap.Container
  | .array id => some (.array id)
  | .object id => some (.object id)
  | _ => none

namespace Heap

/-- The text of a container around the texts of its parts. -/
def Container.enclose : Container → List String → String
  | .array _, texts => "[" ++ ", ".intercalate texts ++ "]"
  | .object _, texts => "\x7b" ++ ", ".intercalate texts ++ "\x7d"

/-- The text in place of a container that is left out. -/
def Container.ellipsis : Container → String
  | .array _ => "[...]"
  | .object _ => "\x7b...\x7d"

/-- The parts of a container, each with the text in front of it. -/
def parts (h : Heap) : Container → List (String × Value)
  | .array id => (h.array id).toList.map fun v => ("", v)
  | .object id => (h.object id).entries.map fun e => (e.1 ++ ": ", e.2)

/-- The containers of a heap. -/
def containers (h : Heap) : List Container :=
  (List.range h.arrays.size).map (fun i => .array ⟨i⟩) ++
    (List.range h.objects.size).map (fun i => .object ⟨i⟩)

/-- The text of a value that refers to no container. -/
def plainText (h : Heap) : Value → String
  | .null => "null"
  | .boolean b => toString b
  | .number n => Number.display n
  | .text s => s
  | .function id => "[function " ++ ((h.function? id).map (·.name)).getD "" ++ "]"
  | .classRef id => "[class #" ++ toString id.index ++ "]"
  | .instanceRef id =>
    "[instance of #" ++ ((h.classOf? id).map fun c => toString c.index).getD "" ++ "]"
  | .array _ | .object _ => ""

/-- A part of the container `c` refers to the container `d`. -/
def Refers (h : Heap) (c d : Container) : Prop :=
  ∃ part ∈ h.parts c, part.2.container? = some d

/-- None of the containers that the value leads to leads back to itself. -/
def Acyclic (h : Heap) (v : Value) : Prop :=
  ∀ c, v.container? = some c → ∀ d, Relation.ReflTransGen h.Refers c d →
    ¬ Relation.TransGen h.Refers d d

/-! ## What the text of a value is -/

/-- The text of a value inside the containers `path`: a reference to one of these is left out, and
every other reference is written out. -/
inductive Written (h : Heap) : List Container → Value → String → Prop
  | plain {path v} : v.container? = none → Written h path v (h.plainText v)
  | elided {path v c} : v.container? = some c → c ∈ path → Written h path v c.ellipsis
  | opened {path v c} (text : Value → String) : v.container? = some c → c ∉ path →
      (∀ part ∈ h.parts c, Written h (c :: path) part.2 (text part.2)) →
      Written h path v (c.enclose ((h.parts c).map fun part => part.1 ++ text part.2))

/-- The text of a value in which every reference is written out. -/
inductive Unfolds (h : Heap) : Value → String → Prop
  | plain {v} : v.container? = none → Unfolds h v (h.plainText v)
  | opened {v c} (text : Value → String) : v.container? = some c →
      (∀ part ∈ h.parts c, Unfolds h part.2 (text part.2)) →
      Unfolds h v (c.enclose ((h.parts c).map fun part => part.1 ++ text part.2))

variable {h : Heap} {path : List Container} {v : Value} {c : Container} {t t' : String}

/-- A value has at most one text inside given containers. -/
lemma Written.unique (hv : Written h path v t) (hv' : Written h path v t') : t = t' := by
  induction hv generalizing t' with
  | plain hnone =>
    cases hv' with
    | plain => rfl
    | elided hsome => rw [hnone] at hsome; cases hsome
    | opened _ hsome => rw [hnone] at hsome; cases hsome
  | elided hc hmem =>
    cases hv' with
    | plain hnone => rw [hc] at hnone; cases hnone
    | elided hc' => rw [hc] at hc'; cases hc'; rfl
    | opened _ hc' hfresh => rw [hc] at hc'; cases hc'; exact absurd hmem hfresh
  | opened text hc hfresh _ ih =>
    cases hv' with
    | plain hnone => rw [hc] at hnone; cases hnone
    | elided hc' hmem => rw [hc] at hc'; cases hc'; exact absurd hmem hfresh
    | opened text' hc' _ hparts =>
      rw [hc] at hc'
      cases hc'
      congr 1
      refine List.map_congr_left fun part hpart => ?_
      rw [ih part hpart (hparts part hpart)]

/-- A value has at most one unfolding. -/
lemma Unfolds.unique (hv : Unfolds h v t) (hv' : Unfolds h v t') : t = t' := by
  induction hv generalizing t' with
  | plain hnone =>
    cases hv' with
    | plain => rfl
    | opened _ hsome => rw [hnone] at hsome; cases hsome
  | opened text hc _ ih =>
    cases hv' with
    | plain hnone => rw [hc] at hnone; cases hnone
    | opened text' hc' hparts =>
      rw [hc] at hc'
      cases hc'
      congr 1
      refine List.map_congr_left fun part hpart => ?_
      rw [ih part hpart (hparts part hpart)]

/-! ## The writer follows the rule -/

lemma displayWithin_of_container?_eq_none (path : List Container) (bound : Nat)
    (hv : v.container? = none) : h.displayWithin path bound v = h.plainText v := by
  cases v with
  | array id => cases hv
  | object id => cases hv
  | _ => cases bound <;> rfl

lemma displayWithin_of_mem (bound : Nat) (hv : v.container? = some c) (hc : c ∈ path) :
    h.displayWithin path (bound + 1) v = c.ellipsis := by
  have hcontains : path.contains c = true := List.contains_iff_mem.mpr hc
  cases v with
  | array id => cases hv; exact if_pos hcontains
  | object id => cases hv; exact if_pos hcontains
  | _ => cases hv

lemma displayWithin_of_not_mem (bound : Nat) (hv : v.container? = some c) (hc : c ∉ path) :
    h.displayWithin path (bound + 1) v =
      c.enclose ((h.parts c).map fun part => part.1 ++ h.displayWithin (c :: path) bound part.2) := by
  have hcontains : ¬ path.contains c = true := fun h => hc (List.contains_iff_mem.mp h)
  cases v with
  | array id =>
    cases hv
    refine (if_neg hcontains).trans ?_
    simp only [Container.enclose, parts, List.map_map, Function.comp_def, String.empty_append]
  | object id =>
    cases hv
    refine (if_neg hcontains).trans ?_
    simp only [Container.enclose, parts, List.map_map, Function.comp_def]
  | _ => cases hv

/-- A container with parts is one of the heap. -/
lemma mem_containers_of_mem_parts {part : String × Value} (hpart : part ∈ h.parts c) :
    c ∈ h.containers := by
  cases c with
  | array id =>
    obtain ⟨v, hv, -⟩ := List.mem_map.mp hpart
    have hlt : id.index < h.arrays.size := by
      by_contra hge
      simp [array, Array.getElem?_eq_none (Nat.le_of_not_lt hge)] at hv
    exact List.mem_append_left _ (List.mem_map.mpr ⟨id.index, List.mem_range.mpr hlt, rfl⟩)
  | object id =>
    obtain ⟨e, he, -⟩ := List.mem_map.mp hpart
    have hlt : id.index < h.objects.size := by
      by_contra hge
      simp [object, Array.getElem?_eq_none (Nat.le_of_not_lt hge)] at he
    exact List.mem_append_right _ (List.mem_map.mpr ⟨id.index, List.mem_range.mpr hlt, rfl⟩)

lemma length_containers (h : Heap) : h.containers.length = h.arrays.size + h.objects.size := by
  simp [containers]

/-- The bound is never what stops the writer.  The containers on a path are different ones of the heap, so
what is left of the bound is never used up before there is nothing new to write. -/
lemma written_displayWithin {bound : Nat} (hnodup : path.Nodup) (hpath : path ⊆ h.containers)
    (hbound : h.containers.length < bound + path.length) :
    Written h path v (h.displayWithin path bound v) := by
  induction bound generalizing path v with
  | zero =>
    have hle : path.length ≤ h.containers.length := (hnodup.subperm hpath).length_le
    omega
  | succ bound ih =>
    cases hv : v.container? with
    | none =>
      rw [displayWithin_of_container?_eq_none path _ hv]
      exact .plain hv
    | some c =>
      by_cases hc : c ∈ path
      · rw [displayWithin_of_mem bound hv hc]
        exact .elided hv hc
      · rw [displayWithin_of_not_mem bound hv hc]
        refine .opened _ hv hc fun part hpart => ih (List.nodup_cons.mpr ⟨hc, hnodup⟩) ?_ ?_
        · exact List.cons_subset.mpr ⟨mem_containers_of_mem_parts hpart, hpath⟩
        · simp only [List.length_cons]
          omega

/-- Inside no container a bound above the number of containers is enough. -/
lemma written_displayWithin_nil {bound : Nat} (v : Value) (hbound : h.containers.length < bound) :
    Written h [] v (h.displayWithin [] bound v) :=
  written_displayWithin List.nodup_nil (List.nil_subset _) (by simpa using hbound)

lemma written_display (h : Heap) (v : Value) : Written h [] v (h.display v) :=
  written_displayWithin_nil v (by rw [length_containers]; omega)

/-! ## Cycles -/

/-- The parts of a container that leads to no cycle lead to none. -/
lemma Acyclic.of_mem_parts (hv : h.Acyclic v) (hc : v.container? = some c) {part : String × Value}
    (hpart : part ∈ h.parts c) : h.Acyclic part.2 := by
  intro d hd e hreach
  exact hv c hc e (.head ⟨part, hpart, hd⟩ hreach)

/-- Nothing is left out of a value that leads to no cycle.  All the containers on the path lead to the
value, so one that is left out leads back to itself. -/
lemma Written.unfolds (ht : Written h path v t) (hv : h.Acyclic v)
    (hpath : ∀ c ∈ path, ∀ d, v.container? = some d → Relation.TransGen h.Refers c d) :
    Unfolds h v t := by
  induction ht with
  | plain hnone => exact .plain hnone
  | elided hc hmem => exact absurd (hpath _ hmem _ hc) (hv _ hc _ .refl)
  | opened text hc _ _ ih =>
    refine .opened text hc fun part hpart => ih part hpart (hv.of_mem_parts hc hpart) ?_
    intro c' hc' d hd
    rcases List.mem_cons.mp hc' with rfl | hmem
    · exact .single ⟨part, hpart, hd⟩
    · exact .tail (hpath c' hmem _ hc) ⟨part, hpart, hd⟩

lemma acyclic_of_container?_eq_none (hv : v.container? = none) : h.Acyclic v := by
  intro c hc
  rw [hv] at hc
  cases hc

/-- A container leads to no cycle if none of its parts does: a cycle through the container itself would
also be one that a part leads to. -/
lemma acyclic_of_parts (hv : v.container? = some c) (hparts : ∀ part ∈ h.parts c, h.Acyclic part.2) :
    h.Acyclic v := by
  intro c' hc' d hreach hcycle
  rw [hv] at hc'
  cases hc'
  rcases hreach.cases_head with rfl | ⟨e, ⟨part, hpart, he⟩, hrest⟩
  · obtain ⟨e, ⟨part, hpart, he⟩, hback⟩ := Relation.TransGen.head'_iff.mp hcycle
    exact hparts part hpart e he c hback hcycle
  · exact hparts part hpart e he d hrest hcycle

lemma Unfolds.acyclic (ht : Unfolds h v t) : h.Acyclic v := by
  induction ht with
  | plain hnone => exact acyclic_of_container?_eq_none hnone
  | opened text hv _ ih => exact acyclic_of_parts hv ih

/-- The writer comes to an end on every heap: no larger bound changes the text.  The text leaves out
exactly the references to containers that are being written further up, and it is the unfolding of
exactly those values that lead to no cycle. -/
theorem display_elides_only_cycles (h : Heap) (v : Value) :
    (∀ bound, h.arrays.size + h.objects.size < bound →
      h.displayWithin [] bound v = h.display v) ∧
    (∀ t, Written h [] v t ↔ t = h.display v) ∧
    (∀ t, Unfolds h v t ↔ h.Acyclic v ∧ t = h.display v) := by
  refine ⟨fun bound hbound => ?_, fun t => ⟨fun ht => ?_, ?_⟩, fun t => ⟨fun ht => ?_, ?_⟩⟩
  · rw [← length_containers] at hbound
    exact (written_displayWithin_nil v hbound).unique (written_display h v)
  · exact ht.unique (written_display h v)
  · rintro rfl
    exact written_display h v
  · have hv := ht.acyclic
    exact ⟨hv, ht.unique ((written_display h v).unfolds hv (by simp))⟩
  · rintro ⟨hv, rfl⟩
    exact (written_display h v).unfolds hv (by simp)

/-- An array that refers to itself, and an object that refers to one array twice. -/
theorem display_cyclic_and_shared :
    Written { arrays := #[#[.text "x", .null], #[.array ⟨1⟩, .array ⟨0⟩]] } [] (.array ⟨1⟩)
      "[[...], [x, null]]" ∧
    ¬ Acyclic { arrays := #[#[.text "x", .null], #[.array ⟨1⟩, .array ⟨0⟩]] } (.array ⟨1⟩) ∧
    Unfolds
      { arrays := #[#[.text "x", .null]], objects := #[⟨[("a", .array ⟨0⟩), ("b", .array ⟨0⟩)]⟩] }
      (.object ⟨0⟩) "\x7ba: [x, null], b: [x, null]\x7d" := by
  refine ⟨((display_elides_only_cycles _ _).2.1 _).mpr (by decide +kernel), ?_,
    ((display_elides_only_cycles _ _).2.2 _).mpr ⟨?_, by decide +kernel⟩⟩
  · intro hacyclic
    exact hacyclic (.array ⟨1⟩) rfl _ .refl (.single ⟨("", .array ⟨1⟩), .head _, rfl⟩)
  · refine acyclic_of_parts rfl fun part hpart => ?_
    have hpart : part.2 = .array ⟨0⟩ := by
      rcases List.mem_pair.mp hpart with rfl | rfl <;> rfl
    rw [hpart]
    refine acyclic_of_parts rfl fun part hpart => acyclic_of_container?_eq_none ?_
    rcases List.mem_pair.mp hpart with rfl | rfl <;> rfl

end Heap

end ScriptLang
