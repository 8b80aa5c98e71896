import SequenceChart.Proofs.Entries
import SequenceChart.Yaml.Json

/-!
# Parts of JSON values

What holds everywhere in a value holds of the value and of all that stands inside it, however deep.
Values that are read from a text give the keys of their objects once, everywhere: a JSON text is
unified after it is read, and in a YAML document a key that comes again is refused or replaced.
-/

namespace SequenceChart

namespace Json

/-- The value itself, or a value that stands somewhere inside it. -/
inductive PartOf : Json → Json → Prop
  | whole (value : Json) : PartOf value value
  | element {part element : Json} {elements : List Json} :
      element ∈ elements → PartOf part element → PartOf part (array elements)
  | entry {part : Json} {entry : String × Json} {entries : List (String × Json)} :
      entry ∈ entries → PartOf part entry.2 → PartOf part (object entries)

/-- At every depth. -/
def Everywhere (Holds : Json → Prop) (value : Json) : Prop :=
  ∀ part, part.PartOf value → Holds part

/-- Neither an array nor an object. -/
inductive Scalar : Json → Prop
  | null : Scalar null
  | bool (value : Bool) : Scalar (bool value)
  | number (value : Number) : Scalar (number value)
  | string (value : String) : Scalar (string value)

/-- To go down a value, from the whole to its elements and entries. -/
@[elab_as_elim]
theorem parts_induction {motive : Json → Prop} (scalar : ∀ value, value.Scalar → motive value)
    (array : ∀ elements, (∀ element ∈ elements, motive element) → motive (array elements))
    (object : ∀ entries, (∀ entry ∈ entries, motive entry.2) → motive (object entries)) :
    ∀ value, motive value
  | .null => scalar _ .null
  | .bool value => scalar _ (.bool value)
  | .number value => scalar _ (.number value)
  | .string value => scalar _ (.string value)
  | .array elements =>
      array elements fun element _ => parts_induction scalar array object element
  | .object entries =>
      object entries fun entry _ => parts_induction scalar array object entry.2
termination_by value => sizeOf value
decreasing_by
  · have := List.sizeOf_lt_of_mem ‹element ∈ elements›
    simp only [Json.array.sizeOf_spec]
    omega
  · have hentry := List.sizeOf_lt_of_mem ‹entry ∈ entries›
    have hvalue : sizeOf entry = 1 + sizeOf entry.1 + sizeOf entry.2 := rfl
    simp only [Json.object.sizeOf_spec]
    omega

variable {Holds : Json → Prop} {value : Json} {elements : List Json} {entries : Entries}

theorem Scalar.everywhere_iff (hscalar : value.Scalar) : value.Everywhere Holds ↔ Holds value := by
  refine ⟨fun hvalue => hvalue value (.whole value), fun hvalue part hpart => ?_⟩
  cases hpart with
  | whole => exact hvalue
  | element | entry => cases hscalar

theorem everywhere_array_iff : (array elements).Everywhere Holds ↔
    Holds (array elements) ∧ ∀ element ∈ elements, element.Everywhere Holds := by
  refine ⟨fun hvalue => ⟨hvalue _ (.whole _), fun element hmem part hpart =>
    hvalue part (.element hmem hpart)⟩, fun ⟨hwhole, hinside⟩ part hpart => ?_⟩
  cases hpart with
  | whole => exact hwhole
  | element hmem hpart => exact hinside _ hmem part hpart

theorem everywhere_object_iff : (object entries).Everywhere Holds ↔
    Holds (object entries) ∧ ∀ entry ∈ entries, entry.2.Everywhere Holds := by
  refine ⟨fun hvalue => ⟨hvalue _ (.whole _), fun entry hmem part hpart =>
    hvalue part (.entry hmem hpart)⟩, fun ⟨hwhole, hinside⟩ part hpart => ?_⟩
  cases hpart with
  | whole => exact hwhole
  | entry hmem hpart => exact hinside _ hmem part hpart

/-- If the value is an object, it gives each key once. -/
def HasDistinctKeys : Json → Prop
  | object entries => (Entries.keys entries).Nodup
  | _ => True

theorem Scalar.distinctKeys (hscalar : value.Scalar) : value.Everywhere HasDistinctKeys := by
  rw [hscalar.everywhere_iff]
  cases hscalar <;> trivial

theorem unifyElements_eq_map (elements : List Json) :
    unifyElements elements = elements.map unify := by
  induction elements with
  | nil => rfl
  | cons element rest ih => rw [unifyElements, ih, List.map_cons]

theorem unifyEntries_eq_map (entries : Entries) :
    unifyEntries entries = entries.map fun entry => (entry.1, entry.2.unify) := by
  induction entries with
  | nil => rfl
  | cons entry rest ih => rw [unifyEntries, ih, List.map_cons]

end Json

namespace Entries

variable {entries : Entries} {entry : String × Json}

theorem mem_of_mem_insert {key : String} {value : Json} (hmem : entry ∈ entries.insert key value) :
    entry = (key, value) ∨ entry ∈ entries := by
  induction entries with
  | nil => exact .inl (List.mem_singleton.mp hmem)
  | cons first rest ih =>
      rw [insert] at hmem
      split at hmem
      · exact (List.mem_cons.mp hmem).imp_right (List.mem_cons_of_mem _)
      · rcases List.mem_cons.mp hmem with rfl | hmem
        · exact .inr List.mem_cons_self
        · exact (ih hmem).imp_right (List.mem_cons_of_mem _)

theorem mem_of_find?_eq_some {key : String} {value : Json}
    (hfind : entries.find? key = some value) : (key, value) ∈ entries := by
  induction entries with
  | nil => cases hfind
  | cons first rest ih =>
      rw [find?_cons] at hfind
      split at hfind
      · rename_i hkey
        obtain rfl := Option.some.inj hfind
        rw [hkey]
        exact List.mem_cons_self
      · exact List.mem_cons_of_mem _ (ih hfind)

/-- Entries that are inserted one after the other give each key once, and no entry is new. -/
theorem ofDuplicates_spec (entries : Entries) :
    (ofDuplicates entries).keys.Nodup ∧ ∀ entry ∈ ofDuplicates entries, entry ∈ entries := by
  have hfold (unique : Entries) (hunique : unique.keys.Nodup) (rest : Entries) :
      (rest.foldl (fun unique entry => unique.insert entry.1 entry.2) unique).keys.Nodup ∧
        ∀ entry ∈ rest.foldl (fun unique entry => unique.insert entry.1 entry.2) unique,
          entry ∈ unique ∨ entry ∈ rest := by
    induction rest generalizing unique with
    | nil => exact ⟨hunique, fun entry hmem => .inl hmem⟩
    | cons first rest ih =>
        obtain ⟨hnodup, hmem⟩ :=
          ih (unique.insert first.1 first.2) (nodup_keys_insert hunique _ _)
        refine ⟨hnodup, fun entry hentry => ?_⟩
        rcases hmem entry hentry with hinserted | hrest
        · rcases mem_of_mem_insert hinserted with rfl | hunique
          · exact .inr List.mem_cons_self
          · exact .inl hunique
        · exact .inr (List.mem_cons_of_mem _ hrest)
  obtain ⟨hnodup, hmem⟩ := hfold [] List.nodup_nil entries
  exact ⟨hnodup, fun entry hentry => (hmem entry hentry).resolve_left List.not_mem_nil⟩

/-- An object that is made of entries with distinct keys inside has distinct keys everywhere. -/
theorem distinctKeys_ofDuplicates
    (hentries : ∀ entry ∈ entries, entry.2.Everywhere Json.HasDistinctKeys) :
    (Json.object (ofDuplicates entries)).Everywhere Json.HasDistinctKeys := by
  obtain ⟨hnodup, hmem⟩ := ofDuplicates_spec entries
  exact Json.everywhere_object_iff.mpr
    ⟨hnodup, fun entry hentry => hentries entry (hmem entry hentry)⟩

end Entries

theorem Json.distinctKeys_unify (value : Json) : value.unify.Everywhere HasDistinctKeys := by
  induction value using Json.parts_induction with
  | scalar value hscalar =>
      cases hscalar with
      | null => exact Scalar.null.distinctKeys
      | bool value => exact (Scalar.bool value).distinctKeys
      | number value => exact (Scalar.number value).distinctKeys
      | string value => exact (Scalar.string value).distinctKeys
  | array elements ih =>
      rw [unify, unifyElements_eq_map, everywhere_array_iff]
      refine ⟨trivial, fun element hmem => ?_⟩
      obtain ⟨original, horiginal, rfl⟩ := List.mem_map.mp hmem
      exact ih original horiginal
  | object entries ih =>
      rw [unify, unifyEntries_eq_map]
      refine Entries.distinctKeys_ofDuplicates fun entry hmem => ?_
      obtain ⟨original, horiginal, rfl⟩ := List.mem_map.mp hmem
      exact ih original horiginal

namespace Yaml

open Json (HasDistinctKeys)

theorem distinctKeys_addTag {value : Json} (hvalue : value.Everywhere HasDistinctKeys)
    (tag : Option TagText) : (addTag tag value).Everywhere HasDistinctKeys := by
  unfold addTag
  split
  · refine Json.everywhere_object_iff.mpr ⟨by simp [HasDistinctKeys], fun entry hmem => ?_⟩
    rw [List.mem_singleton.mp hmem]
    exact hvalue
  · exact hvalue

theorem scalar_ofFloat (value : Float) : (Json.ofFloat value).Scalar := by
  unfold Json.ofFloat
  split
  · exact .number _
  · exact .null

theorem scalar_plainValue? {text : String} {value : Json} (hvalue : plainValue? text = some value) :
    value.Scalar := by
  unfold plainValue? at hvalue
  dsimp only at hvalue
  split at hvalue
  · cases hvalue
    exact .null
  · split at hvalue
    · cases hvalue
      exact .bool _
    · split at hvalue
      · cases hvalue
        exact .number _
      · cases hvalue
      · split at hvalue
        · cases hvalue
          exact .string _
        · obtain rfl := Option.some.inj hvalue
          cases real? text.toList with
          | none => exact .string _
          | some number => exact scalar_ofFloat number

theorem scalar_scalarValue? {tag : Option TagText} {text : String} {plain : Bool} {value : Json}
    (hvalue : scalarValue? tag text plain = some value) : value.Scalar := by
  unfold scalarValue? at hvalue
  split at hvalue
  · split at hvalue
    · rename_i type _
      cases type with
      | null =>
          rw [CoreType.value?] at hvalue
          split at hvalue <;> cases hvalue
          exact .null
      | bool =>
          obtain ⟨value, -, rfl⟩ := Option.map_eq_some_iff.mp hvalue
          exact .bool value
      | whole =>
          rw [CoreType.value?] at hvalue
          split at hvalue <;> cases hvalue
          exact .number _
      | real =>
          obtain ⟨value, -, rfl⟩ := Option.map_eq_some_iff.mp hvalue
          exact scalar_ofFloat value
    · cases hvalue
      exact .string _
  · split at hvalue
    · exact scalar_plainValue? hvalue
    · cases hvalue
      exact .string _

theorem distinctKeys_objectOf? {entries : List (Json × Json)} {value : Json}
    (hentries : ∀ entry ∈ entries, entry.2.Everywhere HasDistinctKeys)
    (hvalue : objectOf? entries = some value) : value.Everywhere HasDistinctKeys := by
  unfold objectOf? at hvalue
  obtain ⟨keys, -, hvalue⟩ := Option.bind_eq_some_iff.mp hvalue
  obtain ⟨-, -, hvalue⟩ := Option.bind_eq_some_iff.mp hvalue
  obtain rfl := Option.some.inj hvalue
  refine Entries.distinctKeys_ofDuplicates fun entry hmem => ?_
  obtain ⟨original, horiginal, heq⟩ := List.mem_map.mp (List.of_mem_zip hmem).2
  rw [← heq]
  exact hentries original horiginal

/-- What every element comes to, all of them come to. -/
theorem Expansion.mapM_spec {α β : Type} {Holds : β → Prop} {expand : α → Expansion β}
    (hexpand : ∀ {item left value rest}, (expand item).run left = some (value, rest) → Holds value)
    {items : List α} {values : List β} {left rest : Nat}
    (hrun : (items.mapM expand).run left = some (values, rest)) :
    ∀ value ∈ values, Holds value := by
  induction items generalizing values left rest with
  | nil =>
      obtain ⟨rfl, -⟩ := Prod.mk.inj (Option.some.inj hrun)
      exact fun _ hmem => (List.not_mem_nil hmem).elim
  | cons item items ih =>
      rw [List.mapM_cons] at hrun
      obtain ⟨⟨value, middle⟩, hvalue, hrun⟩ := Option.bind_eq_some_iff.mp hrun
      obtain ⟨⟨later, last⟩, hlater, hrun⟩ := Option.bind_eq_some_iff.mp hrun
      obtain ⟨rfl, -⟩ := Prod.mk.inj (Option.some.inj hrun)
      intro other hmem
      rcases List.mem_cons.mp hmem with rfl | hmem
      · exact hexpand hvalue
      · exact ih hlater other hmem

theorem distinctKeys_scalarOf {node : Node Nat} {left rest : Nat} {value : Json}
    (hrun : (scalarOf node).run left = some (value, rest)) :
    value.Everywhere HasDistinctKeys := by
  cases node with
  | reference | sequence | mapping => cases hrun
  | scalar properties text plain =>
      obtain ⟨⟨found, middle⟩, hfound, hrun⟩ := Option.bind_eq_some_iff.mp hrun
      obtain ⟨rfl, -⟩ := Prod.mk.inj (Option.some.inj hrun)
      obtain ⟨scalar, hscalar, heq⟩ := Option.bind_eq_some_iff.mp hfound
      obtain ⟨rfl, -⟩ := Prod.mk.inj (Option.some.inj heq)
      exact distinctKeys_addTag (scalar_scalarValue? hscalar).distinctKeys _

theorem distinctKeys_valueOf {inner : Node Nat → Expansion Json}
    (hinner : ∀ {node left value rest}, (inner node).run left = some (value, rest) →
      value.Everywhere HasDistinctKeys)
    {node : Node Nat} {left rest : Nat} {value : Json}
    (hrun : (valueOf inner node).run left = some (value, rest)) :
    value.Everywhere HasDistinctKeys := by
  cases node with
  | reference => cases hrun
  | scalar properties text plain =>
      have hscalar : (scalarOf (.scalar properties text plain)).run left = some (value, rest) :=
        hrun
      exact distinctKeys_scalarOf hscalar
  | sequence properties elements =>
      obtain ⟨⟨values, middle⟩, hvalues, hrun⟩ := Option.bind_eq_some_iff.mp hrun
      obtain ⟨rfl, -⟩ := Prod.mk.inj (Option.some.inj hrun)
      refine distinctKeys_addTag (Json.everywhere_array_iff.mpr ⟨trivial, ?_⟩) _
      exact Expansion.mapM_spec hinner hvalues
  | mapping properties entries =>
      obtain ⟨⟨pairs, middle⟩, hpairs, hrun⟩ := Option.bind_eq_some_iff.mp hrun
      obtain ⟨⟨object, last⟩, hobject, hrun⟩ := Option.bind_eq_some_iff.mp hrun
      obtain ⟨rfl, -⟩ := Prod.mk.inj (Option.some.inj hrun)
      obtain ⟨found, hfound, heq⟩ := Option.bind_eq_some_iff.mp hobject
      obtain ⟨rfl, -⟩ := Prod.mk.inj (Option.some.inj heq)
      refine distinctKeys_addTag (distinctKeys_objectOf? ?_ hfound) _
      refine Expansion.mapM_spec (fun {entry left pair rest} hpair => ?_) hpairs
      obtain ⟨⟨key, afterKey⟩, -, hpair⟩ := Option.bind_eq_some_iff.mp hpair
      obtain ⟨⟨value, afterValue⟩, hvalue, hpair⟩ := Option.bind_eq_some_iff.mp hpair
      obtain ⟨rfl, -⟩ := Prod.mk.inj (Option.some.inj hpair)
      exact hinner hvalue

theorem distinctKeys_expand {root : Node Nat} {depth : Nat} {node : Node Nat} {left rest : Nat}
    {value : Json} (hrun : (expand root depth node).run left = some (value, rest)) :
    value.Everywhere HasDistinctKeys := by
  induction depth generalizing node left value rest with
  | zero =>
      obtain ⟨⟨target, middle⟩, -, hrun⟩ := Option.bind_eq_some_iff.mp hrun
      exact distinctKeys_scalarOf hrun
  | succ depth ih =>
      obtain ⟨⟨target, middle⟩, -, hrun⟩ := Option.bind_eq_some_iff.mp hrun
      exact distinctKeys_valueOf ih hrun

theorem distinctKeys_toJson? {text : List Char} {value : Json}
    (hvalue : toJson? text = some value) : value.Everywhere HasDistinctKeys := by
  unfold toJson? at hvalue
  obtain ⟨document, -, hvalue⟩ := Option.bind_eq_some_iff.mp hvalue
  obtain ⟨root, -, hvalue⟩ := Option.bind_eq_some_iff.mp hvalue
  obtain ⟨⟨found, rest⟩, hrun, hvalue⟩ := Option.bind_eq_some_iff.mp hvalue
  obtain rfl := Option.some.inj hvalue
  exact distinctKeys_expand hrun

end Yaml

end SequenceChart
