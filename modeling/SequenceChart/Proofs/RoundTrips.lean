import Mathlib.Data.List.Forall2
import SequenceChart.Diagram.Exchange
import SequenceChart.Proofs.Entries
import SequenceChart.Proofs.Export
import SequenceChart.Proofs.Parts

/-!
# Events and actors read back

What is written for an event or an actor is read as the same one. An object is read as an event if
each field of the event, wherever it stands, says what the event has there. So the order of the
fields, unknown fields, and null in the place of a field that is left out do not matter. Of all the
objects that are read as one event, one is canonical: the one that is written for it.
-/

namespace SequenceChart

/-- Entries are told by what is found under each name, if their keys keep to the order of the
names. -/
theorem Entries.eq_filterMap_find? {entries : Entries} {names : List String}
    (hordered : entries.keys.Sublist names) (hnodup : names.Nodup) :
    entries = names.filterMap fun name => (entries.find? name).map (Prod.mk name) := by
  induction names generalizing entries with
  | nil => simpa [keys] using hordered
  | cons name rest ih =>
      obtain ⟨hname, hnodup⟩ := List.nodup_cons.mp hnodup
      cases entries with
      | nil => simp [find?]
      | cons entry later =>
          rcases List.sublist_cons_iff.mp hordered with hrest | ⟨kept, hkept, hrest⟩
          · have habsent : find? (entry :: later) name = none := by
              by_contra hfound
              obtain ⟨value, hfound⟩ := Option.ne_none_iff_exists'.mp hfound
              exact hname (hrest.subset (List.mem_map_of_mem (mem_of_find?_eq_some hfound)))
            rw [List.filterMap_cons_none (by rw [habsent]; rfl)]
            exact ih hrest hnodup
          · obtain ⟨hkey, rfl⟩ := List.cons.inj hkept
            have hfound : find? (entry :: later) name = some entry.2 := by
              rw [find?_cons, if_pos hkey.symm]
            have hlater : rest.filterMap (fun other =>
                (find? (entry :: later) other).map (Prod.mk other)) = later := by
              rw [ih hrest hnodup]
              refine List.filterMap_congr fun other hother => ?_
              have hne : other ≠ entry.1 := hkey ▸ ne_of_mem_of_not_mem hother hname
              rw [find?_cons, if_neg hne, ← ih hrest hnodup]
            rw [List.filterMap_cons_some (by rw [hfound]; rfl), hlater, ← hkey]

namespace Json

variable {entries left right : Entries} {name : String}

theorem field?_eq_some {found : Option Json} : field? entries name = some found ↔
    (entries.filter fun entry => entry.1 = name).map Prod.snd = found.toList := by
  unfold field?
  split
  · rename_i hnone
    rw [hnone]
    cases found <;> simp
  · rename_i hone
    rw [hone]
    cases found <;> simp
  · rename_i hnone hone
    constructor
    · exact nofun
    · intro hvalues
      cases found with
      | none => exact (hnone (List.map_eq_nil_iff.mp hvalues)).elim
      | some value =>
          obtain ⟨⟨key, held⟩, hfilter, -⟩ := List.map_eq_singleton_iff.mp hvalues
          exact (hone key held hfilter).elim

theorem field?_of_perm (hperm : left.Perm right) {found : Option Json}
    (hleft : field? left name = some found) : field? right name = some found := by
  have hvalues := (hperm.filter fun entry => decide (entry.1 = name)).map Prod.snd
  rw [field?_eq_some.mp hleft] at hvalues
  rw [field?_eq_some]
  cases found with
  | none => exact hvalues.nil_eq.symm
  | some value => exact (List.singleton_perm.mp hvalues).symm

/-- The order of the fields does not matter. -/
theorem field?_perm (hperm : left.Perm right) (name : String) :
    field? left name = field? right name := by
  ext found
  exact ⟨field?_of_perm hperm, field?_of_perm hperm.symm⟩

theorem field?_append_of_notMem (hname : name ∉ left.keys) :
    field? (left ++ right) name = field? right name := by
  have hnone : left.filter (fun entry => entry.1 = name) = [] := by
    rw [List.filter_eq_nil_iff]
    intro entry hmem heq
    exact hname (List.mem_map.mpr ⟨entry, hmem, of_decide_eq_true heq⟩)
  unfold field?
  rw [List.filter_append, hnone, List.nil_append]

theorem field?_of_notMem (hname : name ∉ entries.keys) : field? entries name = some none := by
  have happend : field? (entries ++ []) name = field? [] name := field?_append_of_notMem hname
  rw [List.append_nil] at happend
  exact happend

theorem field?_cons_of_ne {entry : String × Json} (hname : entry.1 ≠ name) :
    field? (entry :: entries) name = field? entries name := by
  unfold field?
  rw [List.filter_cons_of_neg (by simpa using hname)]

theorem field?_cons_of_notMem (value : Json) (hname : name ∉ entries.keys) :
    field? ((name, value) :: entries) name = some (some value) := by
  have hrest := field?_eq_some.mp (field?_of_notMem hname)
  rw [field?_eq_some, List.filter_cons_of_pos (by simp), List.map_cons, hrest]
  rfl

theorem field?_filter_ne {other : String} (hname : name ≠ other) :
    field? (entries.filter fun entry => entry.1 ≠ other) name = field? entries name := by
  unfold field?
  rw [List.filter_filter]
  have hsame : (entries.filter fun entry => decide (entry.1 = name) && decide (entry.1 ≠ other)) =
      entries.filter fun entry => decide (entry.1 = name) := by
    refine List.filter_congr fun entry _ => ?_
    by_cases hentry : entry.1 = name
    · simp [hentry, hname]
    · simp [hentry]
  rw [hsame]

theorem field?_of_nodup (hnodup : entries.keys.Nodup) (name : String) :
    field? entries name = some (entries.find? name) := by
  induction entries with
  | nil => rfl
  | cons entry rest ih =>
      rw [Entries.keys_cons, List.nodup_cons] at hnodup
      rw [Entries.find?_cons]
      by_cases hname : name = entry.1
      · rw [if_pos hname, hname]
        exact field?_cons_of_notMem entry.2 hnodup.1
      · rw [if_neg hname, field?_cons_of_ne (Ne.symm hname), ih hnodup.2]

theorem exists_mapM_iff {α β : Type} {read? : α → Option β} {holds : α → β → Prop}
    {items : List α} :
    (∃ results, items.mapM read? = some results ∧ List.Forall₂ holds items results) ↔
      ∀ item ∈ items, ∃ result, read? item = some result ∧ holds item result := by
  induction items with
  | nil => exact ⟨fun _ _ hmem => (List.not_mem_nil hmem).elim, fun _ => ⟨[], rfl, .nil⟩⟩
  | cons item rest ih =>
      rw [List.forall_mem_cons, ← ih]
      constructor
      · rintro ⟨_, hread, hholds⟩
        rw [List.mapM_cons] at hread
        obtain ⟨first, hfirst, hread⟩ := Option.bind_eq_some_iff.mp hread
        obtain ⟨later, hlater, hpure⟩ := Option.bind_eq_some_iff.mp hread
        rw [← Option.some.inj hpure, List.forall₂_cons] at hholds
        exact ⟨⟨first, hfirst, hholds.1⟩, later, hlater, hholds.2⟩
      · rintro ⟨⟨first, hfirst, hholds⟩, later, hlater, hrest⟩
        refine ⟨first :: later, ?_, .cons hholds hrest⟩
        rw [List.mapM_cons, hfirst, Option.bind_eq_bind, Option.bind_some, hlater]
        rfl

/-- A value other than null and objects. -/
def isPlain : Json → Bool
  | null | object _ => false
  | bool _ | number _ | string _ | array _ => true

theorem string?_eq_some {value : Json} {text : String} :
    value.string? = some text ↔ value = .string text := by
  cases value <;> simp [string?]

theorem bool?_eq_some {value : Json} {holds : Bool} :
    value.bool? = some holds ↔ value = .bool holds := by
  cases value <;> simp [bool?]

theorem uint32?_eq_some {value : Json} {number : UInt32} :
    value.uint32? = some number ↔ value = .ofNat number.toNat := by
  constructor
  · intro hread
    obtain ⟨natural, hnatural, rfl⟩ := Option.map_eq_some_iff.mp hread
    unfold natural? at hnatural
    split at hnatural
    · rename_i whole
      split at hnatural
      · rename_i hrange
        rw [← Option.some.inj hnatural, UInt32.toNat_ofNat_of_lt' hrange.2, ofNat,
          Int.toNat_of_nonneg hrange.1]
      · cases hnatural
    · cases hnatural
  · rintro rfl
    rw [uint32?, Settings.natural?_ofNat number.toNat_lt, Option.map_some, UInt32.ofNat_toNat]

end Json

/-- The field of an event that may be left out. -/
def EventKind.optional? : EventKind → Option String
  | message => some "sequenceNumber"
  | block => some "label"
  | note | activation => none

namespace Event

/-- The fields that hold a word of a small vocabulary. -/
def wordFields : List String :=
  ["kind", "placement", "edge", "marker"]

/-- What is found in a field says what is written there. Null says that nothing is written, and a
word may be spelled as the only key of an object. -/
def Conveys (name : String) (found written : Option Json) : Prop :=
  found = written ∨ (written = none ∧ found = some .null) ∨
    (name ∈ wordFields ∧ ∃ word spelled, written = some (.string word) ∧ found = some spelled ∧
      spelled.innerName? = some word)

theorem conveys_word {name : String} (hname : name ∈ wordFields) {found : Option Json}
    {word : String} : Conveys name found (some (.string word)) ↔
      ∃ spelled, found = some spelled ∧ spelled.innerName? = some word := by
  constructor
  · rintro (rfl | ⟨habsent, -⟩ | ⟨-, _, spelled, hwritten, hfound, hspelled⟩)
    · exact ⟨.string word, rfl, rfl⟩
    · cases habsent
    · obtain rfl := Json.string.inj (Option.some.inj hwritten)
      exact ⟨spelled, hfound, hspelled⟩
  · rintro ⟨spelled, hfound, hspelled⟩
    exact .inr (.inr ⟨hname, word, spelled, rfl, hfound, hspelled⟩)

theorem conveys_some {name : String} (hname : name ∉ wordFields) {found : Option Json}
    {value : Json} : Conveys name found (some value) ↔ found = some value := by
  simp [Conveys, hname]

theorem conveys_none {name : String} {found : Option Json} :
    Conveys name found none ↔ found = none ∨ found = some .null := by
  simp [Conveys]

theorem conveys_null {name : String} {written : Option Json} (hwritten : written ≠ some .null) :
    Conveys name (some .null) written ↔ Conveys name none written := by
  constructor
  · rintro (heq | ⟨rfl, -⟩ | ⟨-, word, spelled, -, hspelled, hword⟩)
    · exact absurd heq.symm hwritten
    · exact .inl rfl
    · rw [← Option.some.inj hspelled] at hword
      cases hword
  · rintro (rfl | ⟨-, hnone⟩ | ⟨-, word, spelled, -, hspelled, -⟩)
    · exact .inr (.inl ⟨rfl, rfl⟩)
    · cases hnone
    · cases hspelled

theorem optional?_eq_some {β : Type} {read? : Json → Option β} {written : β → Json}
    (hread : ∀ value held, read? value = some held ↔ value = written held)
    (hnull : ∀ held, written held ≠ .null) {name : String} (hname : name ∉ wordFields)
    {found : Option Json} {held : Option β} : Json.optional? read? found = some held ↔
      Conveys name found (held.map written) := by
  cases held with
  | none =>
      rw [Option.map_none, conveys_none]
      unfold Json.optional?
      split <;> simp_all
  | some held =>
      rw [Option.map_some, conveys_some hname]
      unfold Json.optional?
      split
      · simp
      · simpa using (hnull held).symm
      · simp [hread]

theorem word_eq_some {Word : Type} {ofName? : String → Option Word} {nameOf : Word → String}
    (hname : ∀ word, ofName? (nameOf word) = some word)
    (hof : ∀ text word, ofName? text = some word → nameOf word = text) {name : String}
    (hfield : name ∈ wordFields) (spelled : Json) (word : Word) :
    spelled.innerName?.bind ofName? = some word ↔
      Conveys name (some spelled) (some (.string (nameOf word))) := by
  rw [conveys_word hfield, Option.bind_eq_some_iff]
  constructor
  · rintro ⟨text, hspelled, hword⟩
    exact ⟨spelled, rfl, hof text word hword ▸ hspelled⟩
  · rintro ⟨_, hfound, hspelled⟩
    exact ⟨nameOf word, Option.some.inj hfound ▸ hspelled, hname word⟩

end Event

theorem MessageKind.name_of_ofName? (text : String) (kind : MessageKind)
    (hfind : ofName? text = some kind) : kind.name = text := by
  simpa using List.find?_some hfind

theorem NotePlacement.name_of_ofName? (text : String) (placement : NotePlacement)
    (hfind : ofName? text = some placement) : placement.name = text := by
  simpa using List.find?_some hfind

theorem ActivationEdge.name_of_ofName? (text : String) (edge : ActivationEdge)
    (hfind : ofName? text = some edge) : edge.name = text := by
  simpa using List.find?_some hfind

theorem BlockMarker.name_of_ofName? (text : String) (marker : BlockMarker)
    (hfind : ofName? text = some marker) : marker.name = text := by
  simpa using List.find?_some hfind

theorem EventKind.name_of_ofName? (text : String) (kind : EventKind)
    (hfind : ofName? text = some kind) : kind.name = text := by
  simpa using List.find?_some hfind

namespace Event

theorem conveys_text {name : String} {value : Json} {text : String}
    (hread : value.string? = some text) : Conveys name (some value) (some (.string text)) :=
  .inl (congrArg some (Json.string?_eq_some.mp hread))

theorem conveys_flag {name : String} {value : Json} {holds : Bool}
    (hread : value.bool? = some holds) : Conveys name (some value) (some (.bool holds)) :=
  .inl (congrArg some (Json.bool?_eq_some.mp hread))

theorem conveys_number {found : Option Json} {number : Option UInt32} :
    Json.optional? Json.uint32? found = some number ↔
      Conveys "sequenceNumber" found (number.map fun number => .ofNat number.toNat) :=
  optional?_eq_some (fun _ _ => Json.uint32?_eq_some) nofun (by decide)

theorem conveys_label {found : Option Json} {label : Option String} :
    Json.optional? Json.string? found = some label ↔
      Conveys "label" found (label.map .string) :=
  optional?_eq_some (fun _ _ => Json.string?_eq_some) nofun (by decide)

end Event

open Event in
theorem Message.ofFields?_eq_some {fields : List (Option Json)} {message : Message} :
    ofFields? fields = some message ↔ List.Forall₂ (fun name found =>
      Conveys name found (message.toEntries.find? name)) fieldNames fields := by
  have hnumber : message.toEntries.find? "sequenceNumber" =
      message.sequenceNumber.map fun number => Json.ofNat number.toNat := by
    rcases message with ⟨_, _, _, _, _, _ | number⟩ <;> rfl
  have hword := word_eq_some MessageKind.ofName?_name MessageKind.name_of_ofName?
    (show "kind" ∈ wordFields by decide)
  constructor
  · intro hread
    unfold ofFields? at hread
    split at hread
    · obtain ⟨kind, hkind, hread⟩ := Option.bind_eq_some_iff.mp hread
      obtain ⟨source, hsource, hread⟩ := Option.bind_eq_some_iff.mp hread
      obtain ⟨target, htarget, hread⟩ := Option.bind_eq_some_iff.mp hread
      obtain ⟨text, htext, hread⟩ := Option.bind_eq_some_iff.mp hread
      obtain ⟨wrap, hwrap, hread⟩ := Option.bind_eq_some_iff.mp hread
      obtain ⟨number, hlast, hread⟩ := Option.bind_eq_some_iff.mp hread
      obtain rfl := Option.some.inj hread
      exact .cons ((hword _ _).mp hkind) (.cons (conveys_text hsource)
        (.cons (conveys_text htarget) (.cons (conveys_text htext)
          (.cons (conveys_flag hwrap) (.cons (hnumber ▸ conveys_number.mp hlast) .nil)))))
    · cases hread
  · rintro (_ | ⟨hkind, _ | ⟨hsource, _ | ⟨htarget, _ | ⟨htext, _ | ⟨hwrap, _ | ⟨hlast, _ | _⟩⟩⟩⟩⟩⟩)
    rw [hnumber, ← conveys_number] at hlast
    obtain ⟨spelled, rfl, hspelled⟩ := (conveys_word (by decide)).mp hkind
    obtain rfl := (conveys_some (by decide)).mp hsource
    obtain rfl := (conveys_some (by decide)).mp htarget
    obtain rfl := (conveys_some (by decide)).mp htext
    obtain rfl := (conveys_some (by decide)).mp hwrap
    simp [ofFields?, hspelled, hlast, Json.string?, Json.bool?]

open Event in
theorem Note.ofFields?_eq_some {fields : List (Option Json)} {note : Note} :
    ofFields? fields = some note ↔ List.Forall₂ (fun name found =>
      Conveys name found (note.toEntries.find? name)) fieldNames fields := by
  have hword := word_eq_some NotePlacement.ofName?_name NotePlacement.name_of_ofName?
    (show "placement" ∈ wordFields by decide)
  constructor
  · intro hread
    unfold ofFields? at hread
    split at hread
    · obtain ⟨placement, hplacement, hread⟩ := Option.bind_eq_some_iff.mp hread
      obtain ⟨first, hfirst, hread⟩ := Option.bind_eq_some_iff.mp hread
      obtain ⟨second, hsecond, hread⟩ := Option.bind_eq_some_iff.mp hread
      obtain ⟨text, htext, hread⟩ := Option.bind_eq_some_iff.mp hread
      obtain ⟨wrap, hwrap, hread⟩ := Option.bind_eq_some_iff.mp hread
      obtain rfl := Option.some.inj hread
      exact .cons ((hword _ _).mp hplacement) (.cons (conveys_text hfirst)
        (.cons (conveys_text hsecond) (.cons (conveys_text htext)
          (.cons (conveys_flag hwrap) .nil))))
    · cases hread
  · rintro (_ | ⟨hplacement, _ | ⟨hfirst, _ | ⟨hsecond, _ | ⟨htext, _ | ⟨hwrap, _ | _⟩⟩⟩⟩⟩)
    obtain ⟨spelled, rfl, hspelled⟩ := (conveys_word (by decide)).mp hplacement
    obtain rfl := (conveys_some (by decide)).mp hfirst
    obtain rfl := (conveys_some (by decide)).mp hsecond
    obtain rfl := (conveys_some (by decide)).mp htext
    obtain rfl := (conveys_some (by decide)).mp hwrap
    simp [ofFields?, hspelled, Json.string?, Json.bool?]

namespace Event

theorem activationOfFields?_eq_some {fields : List (Option Json)} {event : Event} :
    activationOfFields? fields = some event ↔ event.kind = .activation ∧
      List.Forall₂ (fun name found => Conveys name found (event.toEntries.find? name))
        EventKind.activation.fieldNames fields := by
  have hword := word_eq_some ActivationEdge.ofName?_name ActivationEdge.name_of_ofName?
    (show "edge" ∈ wordFields by decide)
  constructor
  · intro hread
    unfold activationOfFields? at hread
    split at hread
    · obtain ⟨edge, hedge, hread⟩ := Option.bind_eq_some_iff.mp hread
      obtain ⟨actor, hactor, hread⟩ := Option.bind_eq_some_iff.mp hread
      obtain rfl := Option.some.inj hread
      exact ⟨rfl, .cons ((hword _ _).mp hedge) (.cons (conveys_text hactor) .nil)⟩
    · cases hread
  · rintro ⟨hkind, hfields⟩
    cases event with
    | message | note | block => cases hkind
    | activation edge actor =>
        rcases hfields with _ | ⟨hedge, _ | ⟨hactor, _ | _⟩⟩
        obtain ⟨spelled, rfl, hspelled⟩ := (conveys_word (by decide)).mp hedge
        obtain rfl := (conveys_some (by decide)).mp hactor
        simp [activationOfFields?, hspelled, Json.string?]

theorem blockOfFields?_eq_some {fields : List (Option Json)} {event : Event} :
    blockOfFields? fields = some event ↔ event.kind = .block ∧
      List.Forall₂ (fun name found => Conveys name found (event.toEntries.find? name))
        EventKind.block.fieldNames fields := by
  have hlabel (marker : BlockMarker) (label : Option String) :
      (block marker label).toEntries.find? "label" = label.map .string := by
    cases label <;> rfl
  have hword := word_eq_some BlockMarker.ofName?_name BlockMarker.name_of_ofName?
    (show "marker" ∈ wordFields by decide)
  constructor
  · intro hread
    unfold blockOfFields? at hread
    split at hread
    · obtain ⟨marker, hmarker, hread⟩ := Option.bind_eq_some_iff.mp hread
      obtain ⟨label, hlast, hread⟩ := Option.bind_eq_some_iff.mp hread
      obtain rfl := Option.some.inj hread
      exact ⟨rfl, .cons ((hword _ _).mp hmarker) (.cons (hlabel _ _ ▸ conveys_label.mp hlast) .nil)⟩
    · cases hread
  · rintro ⟨hkind, hfields⟩
    cases event with
    | message | note | activation => cases hkind
    | block marker label =>
        rcases hfields with _ | ⟨hmarker, _ | ⟨hlast, _ | _⟩⟩
        rw [hlabel, ← conveys_label] at hlast
        obtain ⟨spelled, rfl, hspelled⟩ := (conveys_word (by decide)).mp hmarker
        simp [blockOfFields?, hspelled, hlast]

theorem ofFields?_eq_some {kind : EventKind} {fields : List (Option Json)} {event : Event} :
    ofFields? kind fields = some event ↔ event.kind = kind ∧
      List.Forall₂ (fun name found => Conveys name found (event.toEntries.find? name))
        kind.fieldNames fields := by
  cases kind with
  | activation => exact activationOfFields?_eq_some
  | block => exact blockOfFields?_eq_some
  | message =>
      rw [ofFields?, Option.map_eq_some_iff]
      constructor
      · rintro ⟨message, hread, rfl⟩
        exact ⟨rfl, Message.ofFields?_eq_some.mp hread⟩
      · rintro ⟨hkind, hfields⟩
        cases event with
        | note | activation | block => cases hkind
        | message message => exact ⟨message, Message.ofFields?_eq_some.mpr hfields, rfl⟩
  | note =>
      rw [ofFields?, Option.map_eq_some_iff]
      constructor
      · rintro ⟨note, hread, rfl⟩
        exact ⟨rfl, Note.ofFields?_eq_some.mp hread⟩
      · rintro ⟨hkind, hfields⟩
        cases event with
        | message | activation | block => cases hkind
        | note note => exact ⟨note, Note.ofFields?_eq_some.mpr hfields, rfl⟩

theorem kindField_notMem (kind : EventKind) : kindField ∉ kind.fieldNames := by
  cases kind <;> decide

/-- An object is read as the event exactly if its kind is given plainly and each field says what
the event has there. -/
theorem ofJson?_object {entries : Entries} {event : Event} :
    ofJson? (.object entries) = some event ↔
      Json.field? entries kindField = some (some (.string event.kind.name)) ∧
        ∀ name ∈ event.kind.fieldNames, ∃ found, Json.field? entries name = some found ∧
          Conveys name found (event.toEntries.find? name) := by
  have hfields (kind : EventKind) :
      (∃ fields, Json.fields? kind.fieldNames
          (.object (entries.filter fun entry => entry.1 ≠ kindField)) = some fields ∧
        List.Forall₂ (fun name found => Conveys name found (event.toEntries.find? name))
          kind.fieldNames fields) ↔
        ∀ name ∈ kind.fieldNames, ∃ found, Json.field? entries name = some found ∧
          Conveys name found (event.toEntries.find? name) := by
    refine Json.exists_mapM_iff.trans (forall₂_congr fun name hname => ?_)
    rw [Json.field?_filter_ne (ne_of_mem_of_not_mem hname (kindField_notMem kind))]
  rw [← hfields]
  constructor
  · intro hread
    obtain ⟨⟨tag, rest⟩, hsplit, hread⟩ := Option.bind_eq_some_iff.mp hread
    obtain ⟨kind, hkind, hread⟩ := Option.bind_eq_some_iff.mp hread
    obtain ⟨fields, hfields, hread⟩ := Option.bind_eq_some_iff.mp hread
    obtain ⟨rfl, hconveys⟩ := ofFields?_eq_some.mp hread
    obtain ⟨found, hfound, hsplit⟩ := Option.bind_eq_some_iff.mp hsplit
    obtain ⟨_, rfl, hsplit⟩ := Option.bind_eq_some_iff.mp hsplit
    obtain ⟨rfl, rfl⟩ := Prod.mk.inj (Option.some.inj hsplit)
    obtain ⟨text, htext, hname⟩ := Option.bind_eq_some_iff.mp hkind
    rw [EventKind.name_of_ofName? text _ hname, ← Json.string?_eq_some.mp htext]
    exact ⟨hfound, fields, hfields, hconveys⟩
  · rintro ⟨htag, fields, hfields, hconveys⟩
    have hsplit : splitKind? (.object entries) = some (.string event.kind.name,
        .object (entries.filter fun entry => entry.1 ≠ kindField)) := by
      simp [splitKind?, htag]
    have hkind : (Json.string event.kind.name).string?.bind EventKind.ofName? =
        some event.kind := by
      simp [Json.string?]
    rw [ofJson?, hsplit, Option.bind_eq_bind, Option.bind_some]
    dsimp only
    rw [hkind, Option.bind_eq_bind, Option.bind_some, hfields, Option.bind_eq_bind,
      Option.bind_some]
    exact ofFields?_eq_some.mpr ⟨rfl, hconveys⟩

/-! ### The canonical form

Objects that convey one event can differ in the order of their fields, in unknown fields, in nulls,
and in words that are spelled as objects. The canonical form leaves no choice in any of these. -/

/-- The entries of the object that is written for the event. -/
def written (event : Event) : Entries :=
  (kindField, .string event.kind.name) :: event.toEntries

/-- The kind comes first, then fields in their order, none twice and none unknown; no value is null
and no word is spelled as an object. -/
structure Canonical (kind : EventKind) (entries : Entries) : Prop where
  tagged : entries.keys.head? = some kindField
  ordered : entries.keys.Sublist (kindField :: kind.fieldNames)
  plain : ∀ entry ∈ entries, entry.2.isPlain = true

theorem nodup_fieldNames (kind : EventKind) : (kindField :: kind.fieldNames).Nodup := by
  cases kind <;> decide

theorem canonical_written (event : Event) : Canonical event.kind event.written := by
  have hkeys : event.toEntries.keys = event.kind.fieldNames ∨
      event.toEntries.keys = event.kind.fieldNames.dropLast := by
    rcases event with ⟨_, _, _, _, _, _ | _⟩ | _ | _ | ⟨_, _ | _⟩
    · exact .inr rfl
    · exact .inl rfl
    · exact .inl rfl
    · exact .inl rfl
    · exact .inr rfl
    · exact .inl rfl
  have hplain : event.written.all fun entry => entry.2.isPlain := by
    rcases event with ⟨_, _, _, _, _, _ | _⟩ | _ | _ | ⟨_, _ | _⟩ <;> rfl
  refine ⟨rfl, ?_, List.all_eq_true.mp hplain⟩
  rw [written, Entries.keys_cons]
  rcases hkeys with hkeys | hkeys
  · rw [hkeys]
  · rw [hkeys]
    exact (List.dropLast_sublist _).cons_cons _

theorem Canonical.nodup {kind : EventKind} {entries : Entries}
    (hcanonical : Canonical kind entries) : entries.keys.Nodup :=
  hcanonical.ordered.nodup (nodup_fieldNames kind)

/-- What is written for an event is read as the event. -/
theorem ofJson?_toJson (event : Event) : ofJson? event.toJson = some event := by
  have hnodup := (canonical_written event).nodup
  refine ofJson?_object.mpr ⟨Json.field?_of_nodup hnodup kindField, fun name hname => ?_⟩
  have hne : name ≠ kindField := ne_of_mem_of_not_mem hname (kindField_notMem event.kind)
  refine ⟨_, Json.field?_of_nodup hnodup name, ?_⟩
  rw [written, Entries.find?_cons, if_neg hne]
  exact .inl rfl

/-- A plain value conveys only itself. -/
theorem eq_of_conveys {name : String} {found written : Option Json}
    (hplain : ∀ value, found = some value → value.isPlain = true)
    (hconveys : Conveys name found written) : found = written := by
  rcases hconveys with hsame | ⟨-, rfl⟩ | ⟨-, word, spelled, rfl, rfl, hspelled⟩
  · exact hsame
  · exact absurd (hplain _ rfl) Bool.false_ne_true
  · cases spelled with
    | string text => exact congrArg (some ∘ Json.string) (Option.some.inj hspelled)
    | object => exact absurd (hplain _ rfl) Bool.false_ne_true
    | null | bool | number | array => cases hspelled

theorem Canonical.eq_written {entries : Entries} {event : Event}
    (hcanonical : Canonical event.kind entries) (hread : ofJson? (.object entries) = some event) :
    entries = event.written := by
  obtain ⟨htag, hfields⟩ := ofJson?_object.mp hread
  have hwritten := canonical_written event
  rw [Entries.eq_filterMap_find? hcanonical.ordered (nodup_fieldNames _),
    Entries.eq_filterMap_find? hwritten.ordered (nodup_fieldNames _)]
  refine List.filterMap_congr fun name hname => ?_
  rw [Json.field?_of_nodup hcanonical.nodup] at htag
  rcases List.mem_cons.mp hname with rfl | hname
  · rw [Option.some.inj htag]
    rfl
  · have hne : name ≠ kindField := ne_of_mem_of_not_mem hname (kindField_notMem event.kind)
    obtain ⟨found, hfound, hconveys⟩ := hfields name hname
    rw [Json.field?_of_nodup hcanonical.nodup] at hfound
    have hsame := eq_of_conveys (fun value hvalue => hcanonical.plain _
      (Entries.mem_of_find?_eq_some ((Option.some.inj hfound).trans hvalue))) hconveys
    rw [written, Entries.find?_cons, if_neg hne, Option.some.inj hfound, hsame]

/-- The order of the fields, fields that an event of its kind does not have, and null in the place
of a field that is left out change nothing. -/
theorem ofJson?_shuffled {event : Event} {entries unknown shuffled : Entries}
    {missing : Option String}
    (hunknown : ∀ name ∈ unknown.keys, name ∉ kindField :: event.kind.fieldNames)
    (hmissing : ∀ name, missing = some name →
      event.kind.optional? = some name ∧ name ∉ entries.keys)
    (hperm : shuffled.Perm ((missing.map fun name => (name, .null)).toList ++
      (unknown ++ entries))) :
    ofJson? (.object shuffled) = some event ↔ ofJson? (.object entries) = some event := by
  have hfield (name : String) (hname : name ∈ kindField :: event.kind.fieldNames)
      (hpresent : missing ≠ some name) :
      Json.field? shuffled name = Json.field? entries name := by
    have hnulls : name ∉ Entries.keys (missing.map fun name => (name, Json.null)).toList := by
      cases missing with
      | none => exact List.not_mem_nil
      | some other => simpa [Entries.keys, eq_comm] using hpresent
    have hnew : name ∉ unknown.keys := fun hmem => hunknown name hmem hname
    rw [Json.field?_perm hperm, Json.field?_append_of_notMem hnulls,
      Json.field?_append_of_notMem hnew]
  have hkind : missing ≠ some kindField := by
    intro heq
    obtain ⟨hoptional, -⟩ := hmissing kindField heq
    revert hoptional
    cases event.kind <;> decide
  rw [ofJson?_object, ofJson?_object, hfield kindField List.mem_cons_self hkind]
  refine and_congr_right fun _ => forall₂_congr fun name hname => ?_
  by_cases hpresent : missing = some name
  · obtain ⟨-, habsent⟩ := hmissing name hpresent
    have hnew : name ∉ Entries.keys (unknown ++ entries) := by
      rw [Entries.keys, List.map_append, List.mem_append, not_or]
      exact ⟨fun hmem => hunknown name hmem (List.mem_cons_of_mem _ hname), habsent⟩
    have hnull : Json.field? shuffled name = some (some .null) := by
      rw [Json.field?_perm hperm, hpresent]
      exact Json.field?_cons_of_notMem .null hnew
    have hwritten : event.toEntries.find? name ≠ some .null := by
      intro hfind
      have hmem := List.mem_cons_of_mem (kindField, .string event.kind.name)
        (Entries.mem_of_find?_eq_some hfind)
      exact absurd ((canonical_written event).plain _ hmem) Bool.false_ne_true
    rw [hnull, Json.field?_of_notMem habsent]
    simpa using conveys_null hwritten
  · rw [hfield name (List.mem_cons_of_mem _ hname) hpresent]

end Event

theorem Actor.ofJson?_toJson (actor : Actor) : ofJson? actor.toJson = some actor := by
  have hfields : Json.fields? fieldNames actor.toJson =
      some [some (.string actor.name), some (.string actor.description),
        some (.string actor.role.name), some (.bool actor.wrap),
        some (.ofNat actor.activationDepth.toNat)] := by
    rfl
  have hdepth := Json.uint32?_eq_some.mpr (Eq.refl (Json.ofNat actor.activationDepth.toNat))
  rw [ofJson?, hfields]
  simp [ofFields?, hdepth, Json.string?, Json.bool?, Json.name?]

namespace Event

/-- **Events and actors read back.** What is written for an event or an actor is read as the same
one. An object that is read as an event has one canonical form: what is written for the event, which
is again read as the event. The object may give its fields in another order, hold fields that the
event does not have, or null in the place of a field that is left out. -/
theorem exchange_round_trip :
    (∀ event : Event, ofJson? event.toJson = some event) ∧
      (∀ actor : Actor, Actor.ofJson? actor.toJson = some actor) ∧
      ∀ (entries : Entries) (event : Event), ofJson? (.object entries) = some event →
        (∃ canonical, event.toJson = .object canonical ∧ Canonical event.kind canonical ∧
          ofJson? (.object canonical) = some event ∧
          ∀ other, Canonical event.kind other → ofJson? (.object other) = some event →
            other = canonical) ∧
        ∀ (unknown shuffled : Entries) (missing : Option String),
          (∀ name ∈ unknown.keys, name ∉ kindField :: event.kind.fieldNames) →
          (∀ name, missing = some name →
            event.kind.optional? = some name ∧ name ∉ entries.keys) →
          shuffled.Perm ((missing.map fun name => (name, .null)).toList ++ (unknown ++ entries)) →
            ofJson? (.object shuffled) = some event := by
  refine ⟨ofJson?_toJson, Actor.ofJson?_toJson, fun entries event hread => ⟨?_, ?_⟩⟩
  · exact ⟨event.written, rfl, canonical_written event, ofJson?_toJson event,
      fun _ hcanonical hother => hcanonical.eq_written hother⟩
  · intro unknown shuffled missing hunknown hmissing hperm
    exact (ofJson?_shuffled hunknown hmissing hperm).mpr hread

/-- The kind may stand last, or first before a label, which no message has, and a number that is
null. -/
theorem scattered_message_read :
    let entries : Entries :=
      [("wrap", .bool false), ("text", .string "hi"), ("to", .string "B"), ("from", .string "A"),
        ("kind", .object [("dotted", .object [])]), (kindField, .string "message")]
    let shuffled : Entries :=
      [(kindField, .string "message"), ("kind", .object [("dotted", .object [])]),
        ("from", .string "A"), ("to", .string "B"), ("text", .string "hi"), ("wrap", .bool false),
        ("label", .array [.null]), ("sequenceNumber", .null)]
    let event : Event := .message
      { kind := .dotted, source := "A", target := "B", text := "hi", wrap := false,
        sequenceNumber := none }
    ofJson? (.object entries) = some event ∧ ofJson? (.object shuffled) = some event ∧
      ∃ canonical, event.toJson = .object canonical ∧ Canonical event.kind canonical ∧
        ofJson? (.object canonical) = some event := by
  intro entries shuffled event
  have hread : ofJson? (.object entries) = some event := by rfl
  obtain ⟨⟨canonical, hwritten, hcanonical, hsame, -⟩, hothers⟩ :=
    exchange_round_trip.2.2 entries event hread
  let more : Entries := ("sequenceNumber", .null) :: ("label", .array [.null]) :: entries
  have hperm : shuffled.Perm more := more.reverse_perm
  have hmissing (name : String) (hname : some "sequenceNumber" = some name) :
      event.kind.optional? = some name ∧ name ∉ entries.keys := by
    obtain rfl := Option.some.inj hname
    exact ⟨rfl, by decide⟩
  exact ⟨hread, hothers [("label", .array [.null])] shuffled (some "sequenceNumber") (by decide)
    hmissing hperm, canonical, hwritten, hcanonical, hsame⟩

end Event

end SequenceChart
