import SequenceChart.Proofs.Layering
import SequenceChart.Proofs.Sanitizing

/-!
# The order of entries

Whether an entry applies does not depend on the settings it applies to. So a fragment applies in any
order of its entries. In which order they stand matters only to a slot that two of them assign to:
to a sequence setting that is given outside the `sequence` part, beside such a part. Sanitizing can
move one entry, the last one, if it takes the place of `secure`.
-/

namespace SequenceChart

/-- What is reported if a value is not of the type of its setting. -/
def valueFault (key : String) (readable : Bool) : Option SettingError :=
  if readable then none else some (.invalidValue key)

namespace SequenceSettings

variable (settings other : SequenceSettings Float)

theorem fault_layEntry (entry : String × Json) : (settings.layEntry entry).2 =
    (SequenceKey.ofName? entry.1).bind fun key =>
      valueFault entry.1 (key.read? entry.2).isSome := by
  unfold layEntry assign?
  cases SequenceKey.ofName? entry.1 with
  | none => rfl
  | some key =>
      rw [Option.bind_some, ← settings.isSome_set?]
      dsimp only
      cases settings.set? key entry.2 <;> rfl

theorem fault_layEntries (entries : Entries) :
    (settings.layEntries entries).2 = (other.layEntries entries).2 := by
  refine (runSteps_congr (fun _ => ()) (fun _ entry => ⟨rfl, ?_⟩) rfl entries).2
  rw [fault_layEntry, fault_layEntry]

end SequenceSettings

namespace Settings

variable (settings other : Settings Float)

theorem isSome_set? (key : GeneralKey) (value : Json) :
    (settings.set? key value).isSome = (key.read? value).isSome := by
  cases key <;> exact Option.isSome_map

theorem fault_layGeneralEntry (key : String) (value : Json) :
    (settings.layGeneralEntry key value).2 =
      match GeneralKey.ofName? key with
      | some known => valueFault key (known.read? value).isSome
      | none =>
          (SequenceKey.ofName? key).bind fun known =>
            valueFault key (known.read? value).isSome := by
  unfold layGeneralEntry
  cases GeneralKey.ofName? key with
  | none =>
      dsimp only
      rw [← settings.sequence.fault_layEntry (key, value), SequenceSettings.layEntry]
      rcases settings.sequence.assign? key value with fault | _ | changed <;> rfl
  | some known =>
      dsimp only
      rw [← settings.isSome_set?]
      cases settings.set? known value <;> rfl

/-- Lays one entry of a fragment. -/
def layFragmentEntry : FragmentKind → Settings Float → String × Json →
    Settings Float × Option SettingError
  | .init => layInitEntry
  | .config => layConfigEntry

theorem applyFragment_eq_run (kind : FragmentKind) (entries : Entries) :
    settings.applyFragment { kind, entries } =
      runSteps (layFragmentEntry kind) settings entries := by
  cases kind <;> rfl

theorem fault_layFragmentEntry (kind : FragmentKind) (entry : String × Json) :
    (layFragmentEntry kind settings entry).2 = (layFragmentEntry kind other entry).2 := by
  have hgeneral : (settings.layGeneralEntry entry.1 entry.2).2 =
      (other.layGeneralEntry entry.1 entry.2).2 := by
    rw [fault_layGeneralEntry, fault_layGeneralEntry]
  cases kind with
  | init =>
      rw [layFragmentEntry, layInitEntry, layInitEntry]
      split
      · cases SequenceSettings.ofJson? entry.2 <;> rfl
      · exact hgeneral
  | config =>
      rw [layFragmentEntry, layConfigEntry, layConfigEntry]
      split
      · cases entry.2 with
        | object entries => exact settings.sequence.fault_layEntries other.sequence entries
        | null | bool | number | string | array => rfl
      · exact hgeneral

end Settings

/-- If the faults of steps do not depend on the state, a run reports none if no step does. -/
theorem runSteps_eq_none_iff {State Item Fault : Type} {step : State → Item → State × Option Fault}
    (hfault : ∀ state other item, (step state item).2 = (step other item).2) (state : State)
    {items : List Item} :
    (runSteps step state items).2 = none ↔ ∀ item ∈ items, (step state item).2 = none := by
  have hstart (start : State) : (runSteps step start items).2 = none ↔
      ∀ item ∈ items, (step state item).2 = none := by
    induction items generalizing start with
    | nil => exact iff_of_true rfl (List.forall_mem_nil _)
    | cons item rest ih =>
        rw [runSteps, List.forall_mem_cons, hfault state start item]
        rcases step start item with ⟨next, _ | fault⟩
        · exact (ih next).trans ⟨fun hnone => ⟨rfl, hnone⟩, fun hnone => hnone.2⟩
        · exact iff_of_false (Option.some_ne_none fault) fun hnone => Option.some_ne_none _ hnone.1
  exact hstart state

/-- The slot that is named outside the `sequence` part. -/
def Slot.ofName (name : String) : Slot :=
  match GeneralKey.ofName? name, SequenceKey.ofName? name with
  | some key, _ => general key
  | none, some key => sequence key
  | none, none => extra name

theorem GeneralKey.name_of_ofName? {name : String} {key : GeneralKey}
    (hkey : ofName? name = some key) : key.name = name := by
  have hfound := List.find?_some hkey
  exact of_decide_eq_true hfound

/-- The name that leads to the slot. -/
def Slot.name : Slot → String
  | general key => key.name
  | sequence key => key.name
  | extra name => name
  | sequenceExtra name => name

theorem Slot.name_ofName (name : String) : (ofName name).name = name := by
  unfold ofName
  split
  · rename_i hkey
    exact GeneralKey.name_of_ofName? hkey
  · rename_i hkey
    exact SequenceKey.name_of_ofName? hkey
  · rfl

theorem Assignment.ofGeneralEntry_eq_put (entry : String × Json) :
    ofGeneralEntry entry = put (Slot.ofName entry.1) entry.2 := by
  unfold ofGeneralEntry Slot.ofName
  cases GeneralKey.ofName? entry.1 with
  | some key => rfl
  | none => cases SequenceKey.ofName? entry.1 <;> rfl

/-- The entry assigns to the slot. -/
def FragmentKind.Concerns (kind : FragmentKind) (entry : String × Json) (slot : Slot) : Prop :=
  ∃ assignment ∈ kind.assignments entry, (assignment.sets? slot).isSome

/-- A slot of the `sequence` section. -/
def Slot.InSequence (slot : Slot) : Prop :=
  (∃ key, slot = sequence key) ∨ ∃ name, slot = sequenceExtra name

theorem Assignment.slot_of_sets? {slot other : Slot} {value : Json}
    (hsets : ((put slot value).sets? other).isSome) : other = slot := by
  rw [sets?] at hsets
  split at hsets
  · exact Eq.symm ‹slot = other›
  · cases hsets

namespace FragmentKind

variable {kind : FragmentKind} {entry other : String × Json} {slot : Slot}

theorem Concerns.inSequence (hconcerns : kind.Concerns entry slot)
    (hpart : entry.1 = sequencePart) : slot.InSequence := by
  obtain ⟨assignment, hmem, hsets⟩ := hconcerns
  have hentries (hinside : assignment ∈ entry.2.entries.map .ofPartEntry) : slot.InSequence := by
    obtain ⟨inner, -, rfl⟩ := List.mem_map.mp hinside
    unfold Assignment.ofPartEntry at hsets
    split at hsets
    · exact .inl ⟨_, Assignment.slot_of_sets? hsets⟩
    · exact .inr ⟨_, Assignment.slot_of_sets? hsets⟩
  unfold assignments at hmem
  rw [if_pos hpart] at hmem
  cases kind with
  | config => exact hentries hmem
  | init =>
      rcases List.mem_cons.mp hmem with rfl | hmem
      · cases slot with
        | sequence key => exact .inl ⟨key, rfl⟩
        | sequenceExtra name => exact .inr ⟨name, rfl⟩
        | general | extra => cases hsets
      · exact hentries hmem

theorem Concerns.eq_ofName (hconcerns : kind.Concerns entry slot)
    (hpart : entry.1 ≠ sequencePart) : slot = Slot.ofName entry.1 := by
  obtain ⟨assignment, hmem, hsets⟩ := hconcerns
  unfold assignments at hmem
  rw [if_neg hpart, List.mem_singleton] at hmem
  rw [hmem, Assignment.ofGeneralEntry_eq_put] at hsets
  exact Assignment.slot_of_sets? hsets

/-- Only a sequence setting can be named outside the `sequence` part and inside. -/
theorem eq_sequence_of_ofName (hname : slot = Slot.ofName entry.1) (hslot : slot.InSequence) :
    ∃ key, slot = .sequence key := by
  rcases hslot with hkey | ⟨name, rfl⟩
  · exact hkey
  · unfold Slot.ofName at hname
    split at hname <;> cases hname

/-- One stands outside the `sequence` part and names the setting, the other is such a part. -/
def Competes (part outside : String × Json) (key : SequenceKey) : Prop :=
  part.1 = sequencePart ∧ Slot.ofName outside.1 = .sequence key

/-- If entries with different keys assign to one slot, one is the `sequence` part. -/
theorem Concerns.competes (hentry : kind.Concerns entry slot) (hother : kind.Concerns other slot)
    (hkeys : entry.1 ≠ other.1) :
    ∃ key, slot = .sequence key ∧ (Competes entry other key ∨ Competes other entry key) := by
  by_cases hpart : entry.1 = sequencePart
  · have hname := hother.eq_ofName fun hsame => hkeys (hpart.trans hsame.symm)
    obtain ⟨key, hkey⟩ := eq_sequence_of_ofName hname (hentry.inSequence hpart)
    exact ⟨key, hkey, .inl ⟨hpart, hname.symm.trans hkey⟩⟩
  · have hname := hentry.eq_ofName hpart
    by_cases hotherPart : other.1 = sequencePart
    · obtain ⟨key, hkey⟩ := eq_sequence_of_ofName hname (hother.inSequence hotherPart)
      exact ⟨key, hkey, .inr ⟨hotherPart, hname.symm.trans hkey⟩⟩
    · have hsame := congrArg Slot.name (hname.symm.trans (hother.eq_ofName hotherPart))
      rw [Slot.name_ofName, Slot.name_ofName] at hsame
      exact absurd hsame hkeys

theorem exists_concerns {entries : Entries} {value : slot.Value}
    (hlast : lastAssigned? (Fragment.assignments { kind, entries }) slot = some value) :
    ∃ entry ∈ entries, kind.Concerns entry slot := by
  obtain ⟨assignment, hmem, hsets⟩ := List.mem_filterMap.mp (List.mem_of_getLast? hlast)
  obtain ⟨entry, hentry, hmem⟩ := List.mem_flatMap.mp hmem
  exact ⟨entry, hentry, assignment, hmem, by rw [hsets]; rfl⟩

end FragmentKind

theorem lastAssigned?_append (first second : List Assignment) (slot : Slot) :
    lastAssigned? (first ++ second) slot =
      (lastAssigned? second slot).or (lastAssigned? first slot) := by
  rw [lastAssigned?, List.filterMap_append, List.getLast?_append]
  rfl

namespace Settings

variable {settings final other : Settings Float}

/-- If assignments that change places make a difference to a slot, it is assigned to in both places,
and holds what the later one says. -/
theorem Follows.swap {early first second : List Assignment}
    (hfinal : settings.Follows (early ++ (second ++ first)) final)
    (hother : settings.Follows (early ++ (first ++ second)) other) {slot : Slot}
    (hdiffer : final.value slot ≠ other.value slot) :
    lastAssigned? first slot = some (final.value slot) ∧
      lastAssigned? second slot = some (other.value slot) := by
  rw [hfinal.value, hother.value] at hdiffer ⊢
  simp only [lastAssigned?_append] at hdiffer ⊢
  generalize lastAssigned? first slot = firstValue at hdiffer ⊢
  generalize lastAssigned? second slot = secondValue at hdiffer ⊢
  rcases firstValue with _ | firstValue <;> rcases secondValue with _ | secondValue
  · exact absurd rfl hdiffer
  · exact absurd rfl hdiffer
  · exact absurd rfl hdiffer
  · exact ⟨rfl, rfl⟩

theorem applyFragment_eq_none_iff {kind : FragmentKind} {entries : Entries} :
    (settings.applyFragment { kind, entries }).2 = none ↔
      ∀ entry ∈ entries, (layFragmentEntry kind settings entry).2 = none := by
  rw [applyFragment_eq_run]
  exact runSteps_eq_none_iff (fun _ _ entry => fault_layFragmentEntry _ _ kind entry) settings

end Settings

/-! ### The place of `secure`

Where `secure` is dropped, the last entry takes its place, while private keys are filtered out and
leave the others where they stand. So only `secure` can change the order, and only if others follow
it. -/

/-- The other entries, in their order. -/
def Entries.withoutSecure (entries : Entries) : Entries :=
  entries.filter fun entry => entry.1 ≠ "secure"

namespace Entries

variable {entries before between left right : Entries} {moved : String × Json} {value : Json}

theorem keys_append (left right : Entries) : keys (left ++ right) = left.keys ++ right.keys :=
  List.map_append

theorem sanitize_of_notMem (hsecure : "secure" ∉ entries.keys) :
    entries.sanitize =
      (Json.sanitizeEntries entries).filter fun entry => !Json.isPrivateKey entry.1 := by
  rw [← Json.keys_sanitizeEntries] at hsecure
  rw [sanitize, dropReserved, swapRemove_of_notMem hsecure]

theorem sanitize_append (hleft : "secure" ∉ left.keys) (hright : "secure" ∉ right.keys) :
    (left ++ right).sanitize = left.sanitize ++ right.sanitize := by
  have hboth : "secure" ∉ (left ++ right).keys := by
    rw [keys_append, List.mem_append, not_or]
    exact ⟨hleft, hright⟩
  rw [sanitize_of_notMem hleft, sanitize_of_notMem hright, sanitize_of_notMem hboth,
    Json.sanitizeEntries_eq_map, List.map_append, List.filter_append, Json.sanitizeEntries_eq_map,
    Json.sanitizeEntries_eq_map]

/-- The last entry takes the place of `secure`. -/
theorem sanitize_moved (hbefore : "secure" ∉ before.keys) (hbetween : "secure" ∉ between.keys)
    (hmoved : "secure" ∉ keys [moved]) :
    (before ++ ("secure", value) :: (between ++ [moved])).sanitize =
      before.sanitize ++ (sanitize [moved] ++ between.sanitize) := by
  have hkeys : "secure" ∉ keys (Json.sanitizeEntries before) := by
    rwa [Json.keys_sanitizeEntries]
  rw [sanitize_of_notMem hbefore, sanitize_of_notMem hbetween, sanitize_of_notMem hmoved, sanitize,
    dropReserved]
  simp only [Json.sanitizeEntries_eq_map, List.map_append, List.map_cons, List.map_nil] at hkeys ⊢
  rw [swapRemove_append_cons hkeys, List.getLast?_concat, List.dropLast_concat, List.filter_append,
    List.filter_append]
  rfl

theorem withoutSecure_append_cons (hbefore : "secure" ∉ before.keys) (value : Json)
    (hafter : "secure" ∉ right.keys) :
    (before ++ ("secure", value) :: right).withoutSecure = before ++ right := by
  rw [withoutSecure, List.filter_append, List.filter_cons_of_neg (by simp),
    filter_ne_of_notMem hbefore, filter_ne_of_notMem hafter]

/-- Either the entries are sanitized as without `secure`, or one of them is moved. -/
theorem sanitize_withoutSecure (hnodup : entries.keys.Nodup) :
    entries.sanitize = entries.withoutSecure.sanitize ∨
      ∃ (before : Entries) (value : Json) (between : Entries) (moved : String × Json),
        entries = before ++ ("secure", value) :: (between ++ [moved]) ∧
          entries.sanitize = before.sanitize ++ (sanitize [moved] ++ between.sanitize) ∧
          entries.withoutSecure.sanitize =
            before.sanitize ++ (between.sanitize ++ sanitize [moved]) := by
  by_cases hsecure : "secure" ∈ entries.keys
  · obtain ⟨before, value, after, rfl, hbefore, hafter⟩ := exists_append_cons_of_mem hnodup hsecure
    rw [withoutSecure_append_cons hbefore value hafter]
    rcases List.eq_nil_or_concat after with rfl | ⟨between, moved, rfl⟩
    · left
      have hkeys : "secure" ∉ keys (Json.sanitizeEntries before) := by
        rwa [Json.keys_sanitizeEntries]
      rw [List.append_nil, sanitize, dropReserved, Json.sanitizeEntries_eq_map, List.map_append,
        List.map_cons, List.map_nil, ← Json.sanitizeEntries_eq_map, swapRemove_append_cons hkeys,
        sanitize_of_notMem hbefore]
      exact congrArg _ (List.append_nil _)
    · right
      rw [List.concat_eq_append] at hafter ⊢
      rw [keys_append, List.mem_append, not_or] at hafter
      refine ⟨before, value, between, moved, rfl, sanitize_moved hbefore hafter.1 hafter.2, ?_⟩
      have hrest : "secure" ∉ keys (between ++ [moved]) := by
        rw [keys_append, List.mem_append, not_or]
        exact hafter
      rw [sanitize_append hbefore hrest, sanitize_append hafter.1 hafter.2]
  · left
    rw [withoutSecure, filter_ne_of_notMem hsecure]

end Entries

namespace Settings

variable {settings final other : Settings Float}

/-- **The place of `secure`.** A fragment applies if it does without its entry of `secure`. A slot
holds something else then only if it is a sequence setting that the last entry and one between the
two assign to, one of them outside the `sequence` part and one by such a part. It holds what stands
between the two, and without `secure` it would hold what comes last. -/
theorem applyFragment_withoutSecure {entries : Entries} (hnodup : entries.keys.Nodup)
    (kind : FragmentKind) (settings : Settings Float) :
    ((settings.applyFragment { kind, entries := entries.sanitize }).2 = none ↔
        (settings.applyFragment { kind, entries := entries.withoutSecure.sanitize }).2 = none) ∧
      ∀ final other,
        settings.applyFragment { kind, entries := entries.sanitize } = (final, none) →
        settings.applyFragment { kind, entries := entries.withoutSecure.sanitize } =
          (other, none) →
        ∀ slot, final.value slot ≠ other.value slot →
          ∃ (before : Entries) (value : Json) (between : Entries) (moved : String × Json)
              (key : SequenceKey),
            entries = before ++ ("secure", value) :: (between ++ [moved]) ∧
              slot = .sequence key ∧
              (∃ entry ∈ between, FragmentKind.Competes entry moved key ∨
                FragmentKind.Competes moved entry key) ∧
              lastAssigned? (Fragment.assignments { kind, entries := between.sanitize }) slot =
                some (final.value slot) ∧
              lastAssigned? (Fragment.assignments { kind, entries := Entries.sanitize [moved] })
                slot = some (other.value slot) := by
  rcases Entries.sanitize_withoutSecure hnodup with
    hsame | ⟨before, value, between, moved, hentries, hswept, hleft⟩
  · rw [← hsame]
    refine ⟨Iff.rfl, fun final other hfinal hother slot hdiffer => ?_⟩
    obtain rfl := congrArg Prod.fst (hfinal.symm.trans hother)
    exact absurd rfl hdiffer
  rw [hswept, hleft]
  constructor
  · rw [applyFragment_eq_none_iff, applyFragment_eq_none_iff]
    exact forall_congr' fun entry => imp_congr_left
      (List.perm_append_comm.append_left before.sanitize).mem_iff
  intro final other hfinal hother slot hdiffer
  have hfollows := follows_applyFragment hfinal
  have hfollowsOther := follows_applyFragment hother
  simp only [Fragment.assignments, List.flatMap_append] at hfollows hfollowsOther
  obtain ⟨hbetween, hmoved⟩ := hfollows.swap hfollowsOther hdiffer
  -- Both places assign to the slot, and the keys that lead there are distinct.
  obtain ⟨first, hfirst, hconcerns⟩ := FragmentKind.exists_concerns hbetween
  obtain ⟨last, hlast, hconcernsLast⟩ := FragmentKind.exists_concerns hmoved
  rw [hentries, Entries.keys_append, Entries.keys_cons, Entries.keys_append, List.nodup_append,
    List.nodup_cons, List.nodup_append] at hnodup
  obtain ⟨-, ⟨-, hdistinct, -, hapart⟩, -⟩ := hnodup
  obtain ⟨entry, hentry, -, rfl⟩ := (Entries.mem_sanitize hdistinct).mp hfirst
  have hsingleton : (Entries.keys [moved]).Nodup := List.nodup_singleton moved.1
  obtain ⟨_, hsingle, -, rfl⟩ := (Entries.mem_sanitize hsingleton).mp hlast
  rw [List.mem_singleton.mp hsingle] at hconcernsLast
  have hkeys : entry.1 ≠ moved.1 :=
    hapart entry.1 (List.mem_map_of_mem hentry) moved.1 List.mem_cons_self
  obtain ⟨key, hkey, hcompetes⟩ := hconcerns.competes hconcernsLast hkeys
  exact ⟨before, value, between, moved, key, hentries, hkey, ⟨entry, hentry, hcompetes⟩, hbetween,
    hmoved⟩

/-- A payload that gives a sequence setting behind the `sequence` part. -/
def mirrorless : Entries :=
  [("secure", .array []), ("sequence", .object []), ("mirrorActors", .bool false)]

theorem mirrorless_withoutSecure :
    ∃ (before : Entries) (value : Json) (between : Entries) (moved : String × Json)
        (key : SequenceKey),
      mirrorless = before ++ ("secure", value) :: (between ++ [moved]) ∧
        Slot.sequence .mirrorActors = .sequence key ∧
        ∃ entry ∈ between, FragmentKind.Competes entry moved key ∨
          FragmentKind.Competes moved entry key := by
  have hswept : standard.applyFragment { kind := .init, entries := mirrorless.sanitize } =
      ((standard.applyFragment { kind := .init, entries := mirrorless.sanitize }).1, none) :=
    Prod.ext rfl rfl
  have hleft :
      standard.applyFragment { kind := .init, entries := mirrorless.withoutSecure.sanitize } =
      ((standard.applyFragment { kind := .init, entries := mirrorless.withoutSecure.sanitize }).1,
        none) :=
    Prod.ext rfl rfl
  obtain ⟨before, value, between, moved, key, hentries, hkey, hcompetes, -⟩ :=
    (@applyFragment_withoutSecure mirrorless (by decide) .init standard).2 _ _ hswept hleft
      (.sequence .mirrorActors) Bool.noConfusion
  exact ⟨before, value, between, moved, key, hentries, hkey, hcompetes⟩

/-- With `secure` in front, the `sequence` part comes last and makes the setting standard. -/
theorem mirrorless_differs :
    (standard.applyFragment { kind := .init, entries := mirrorless.sanitize }).2 = none ∧
      (standard.applyFragment { kind := .init, entries := mirrorless.withoutSecure.sanitize }).2 =
        none ∧
      (standard.applyFragment { kind := .init, entries := mirrorless.sanitize }).1.value
        (.sequence .mirrorActors) = true ∧
      (standard.applyFragment
        { kind := .init, entries := mirrorless.withoutSecure.sanitize }).1.value
        (.sequence .mirrorActors) = false :=
  ⟨rfl, rfl, rfl, rfl⟩

end Settings

end SequenceChart
