import SequenceChart.Proofs.Extras

/-!
# The law of layers

Fragments assign values to slots: to the settings by their keys, and to the names of the entries
that are kept without a setting. In the end every slot holds the value that was assigned to it last.
A `sequence` part of an `init` fragment assigns standard values to the whole section first.
-/

namespace SequenceChart

/-- What a top-level setting holds. -/
def GeneralKey.Value : GeneralKey → Type
  | theme => Option String
  | logLevel => Option LogLevel
  | fontFamily => Option String
  | fontSize => Option Float
  | fontWeight => Option FontWeight
  | wrap => Bool

def GeneralKey.read? : (key : GeneralKey) → Json → Option key.Value
  | theme => readOptional? Json.string?
  | logLevel => readOptional? LogLevel.ofJson?
  | fontFamily => readOptional? Json.string?
  | fontSize => readOptional? Json.float?
  | fontWeight => readOptional? FontWeight.ofJson?
  | wrap => Json.bool?

/-- Where settings hold a value: under a key, or under a name that is no key. -/
inductive Slot
  | general (key : GeneralKey)
  | sequence (key : SequenceKey)
  | extra (name : String)
  | sequenceExtra (name : String)
  deriving DecidableEq

def Slot.Value : Slot → Type
  | general key => key.Value
  | sequence key => key.Value
  | extra _ => Option Json
  | sequenceExtra _ => Option Json

/-- A value of the wrong type cannot be read. Without a setting, any value is kept. -/
def Slot.read? : (slot : Slot) → Json → Option slot.Value
  | general key => key.read?
  | sequence key => key.read?
  | extra _ => fun value => some (some value)
  | sequenceExtra _ => fun value => some (some value)

def Settings.value (settings : Settings Float) : (slot : Slot) → slot.Value
  | .general .theme => settings.theme
  | .general .logLevel => settings.logLevel
  | .general .fontFamily => settings.fontFamily
  | .general .fontSize => settings.fontSize
  | .general .fontWeight => settings.fontWeight
  | .general .wrap => settings.wrap
  | .sequence key => settings.sequence.value key
  | .extra name => settings.extra.find? name
  | .sequenceExtra name => settings.sequence.extra.find? name

inductive Assignment
  | put (slot : Slot) (value : Json)
  /-- All sequence settings become standard, and nothing is kept without a setting. -/
  | standardSequence

namespace Assignment

/-- The value is of the type that the slot has. -/
def Readable : Assignment → Prop
  | put slot value => (slot.read? value).isSome
  | standardSequence => True

/-- What the assignment makes a slot hold, if it concerns the slot. -/
def sets? : Assignment → (slot : Slot) → Option slot.Value
  | put assigned value, slot => if assigned = slot then slot.read? value else none
  | standardSequence, .sequence key => some (SequenceSettings.standard.value key)
  | standardSequence, .sequenceExtra _ => some none
  | standardSequence, .general _ | standardSequence, .extra _ => none

/-- What an entry of a `sequence` part assigns. -/
def ofPartEntry (entry : String × Json) : Assignment :=
  match SequenceKey.ofName? entry.1 with
  | some key => put (.sequence key) entry.2
  | none => put (.sequenceExtra entry.1) entry.2

/-- What an entry outside the `sequence` part assigns. A key that names a top-level setting and a
sequence setting is the former. -/
def ofGeneralEntry (entry : String × Json) : Assignment :=
  match GeneralKey.ofName? entry.1, SequenceKey.ofName? entry.1 with
  | some key, _ => put (.general key) entry.2
  | none, some key => put (.sequence key) entry.2
  | none, none => put (.extra entry.1) entry.2

end Assignment

def Json.entries : Json → Entries
  | object entries => entries
  | _ => []

def FragmentKind.assignments (kind : FragmentKind) (entry : String × Json) : List Assignment :=
  if entry.1 = sequencePart then
    match kind with
    | init => .standardSequence :: entry.2.entries.map .ofPartEntry
    | config => entry.2.entries.map .ofPartEntry
  else [.ofGeneralEntry entry]

/-- The assignments of a fragment, in the order of its keys. -/
def Fragment.assignments (fragment : Fragment) : List Assignment :=
  fragment.entries.flatMap fragment.kind.assignments

/-- The value that is assigned to a slot last. -/
def lastAssigned? (assigned : List Assignment) (slot : Slot) : Option slot.Value :=
  (assigned.filterMap (·.sets? slot)).getLast?

namespace Settings

/-- The settings come from earlier ones by assignments. -/
structure Follows (start : Settings Float) (assigned : List Assignment) (final : Settings Float) :
    Prop where
  readable : ∀ assignment ∈ assigned, assignment.Readable
  value : ∀ slot, final.value slot = (lastAssigned? assigned slot).getD (start.value slot)

variable {start middle final settings next : Settings Float} {assigned others : List Assignment}

theorem Follows.refl (settings : Settings Float) : settings.Follows [] settings :=
  ⟨fun _ hmem => (List.not_mem_nil hmem).elim, fun _ => rfl⟩

theorem Follows.trans (hfirst : start.Follows assigned middle)
    (hsecond : middle.Follows others final) : start.Follows (assigned ++ others) final := by
  refine ⟨List.forall_mem_append.mpr ⟨hfirst.readable, hsecond.readable⟩, fun slot => ?_⟩
  rw [hsecond.value, hfirst.value, lastAssigned?, lastAssigned?, lastAssigned?,
    List.filterMap_append, List.getLast?_append]
  cases (others.filterMap (·.sets? slot)).getLast? <;> rfl

theorem Follows.single {assignment : Assignment} (hreadable : assignment.Readable)
    (hvalue : ∀ slot, next.value slot = (assignment.sets? slot).getD (settings.value slot)) :
    settings.Follows [assignment] next := by
  refine ⟨List.forall_mem_singleton.mpr hreadable, fun slot => ?_⟩
  have hlast : lastAssigned? [assignment] slot = assignment.sets? slot := by
    unfold lastAssigned?
    cases hslot : assignment.sets? slot <;> simp [hslot]
  rw [hlast]
  exact hvalue slot

/-- One slot takes the value that is read, all others stay as they are. -/
theorem Follows.put {slot : Slot} {value : Json} (hread : slot.read? value = some (next.value slot))
    (hothers : ∀ other, other ≠ slot → next.value other = settings.value other) :
    settings.Follows [.put slot value] next := by
  refine .single ?_ fun other => ?_
  · rw [Assignment.Readable, hread]
    rfl
  · rw [Assignment.sets?]
    by_cases hslot : slot = other
    · subst hslot
      rw [if_pos rfl, hread]
      rfl
    · rw [if_neg hslot]
      exact hothers other (Ne.symm hslot)

theorem follows_standardSequence (settings : Settings Float) :
    settings.Follows [.standardSequence] { settings with sequence := .standard } := by
  refine .single trivial fun slot => ?_
  cases slot with
  | general key => cases key <;> rfl
  | sequence | extra | sequenceExtra => rfl

/-- If each step makes the assignments of its item, a run makes those of all its items. -/
theorem follows_run {State Item Fault : Type} (view : State → Settings Float)
    {step : State → Item → State × Option Fault} (assignments : Item → List Assignment)
    (hstep : ∀ {state next : State} {item : Item}, step state item = (next, none) →
      (view state).Follows (assignments item) (view next))
    {state last : State} {items : List Item} (hrun : runSteps step state items = (last, none)) :
    (view state).Follows (items.flatMap assignments) (view last) := by
  induction items generalizing state with
  | nil =>
      obtain rfl := congrArg Prod.fst hrun
      exact .refl _
  | cons item rest ih =>
      rw [runSteps] at hrun
      rcases hitem : step state item with ⟨next, fault⟩
      rw [hitem] at hrun
      cases fault with
      | some fault => cases congrArg Prod.snd hrun
      | none =>
          rw [List.flatMap_cons]
          exact (hstep hitem).trans (ih hrun)

theorem general_set?_eq_some {key : GeneralKey} {value : Json}
    (hset : settings.set? key value = some next) :
    key.read? value = some (next.value (.general key)) ∧
      ∀ other, other ≠ key → next.value (.general other) = settings.value (.general other) := by
  cases key
  all_goals
    obtain ⟨value, hvalue, rfl⟩ := Option.map_eq_some_iff.mp hset
    refine ⟨hvalue, fun other hother => ?_⟩
    cases other <;> first | rfl | exact absurd rfl hother

theorem follows_general {key : GeneralKey} {value : Json}
    (hset : settings.set? key value = some next) :
    settings.Follows [.put (.general key) value] next := by
  obtain ⟨hread, hothers⟩ := general_set?_eq_some hset
  obtain ⟨hextra, hsequence⟩ := extras_set? hset
  refine .put hread fun slot hslot => ?_
  cases slot with
  | general other => exact hothers other fun heq => hslot (congrArg Slot.general heq)
  | sequence other => exact congrArg (SequenceSettings.value · other) hsequence
  | extra name => exact congrArg (Entries.find? · name) hextra
  | sequenceExtra name => exact congrArg (·.extra.find? name) hsequence

theorem follows_sequence {changed : SequenceSettings Float} {key : SequenceKey} {value : Json}
    (hset : settings.sequence.set? key value = some changed) :
    settings.Follows [.put (.sequence key) value] { settings with sequence := changed } := by
  obtain ⟨hread, hothers⟩ := SequenceSettings.set?_eq_some hset
  refine .put hread fun slot hslot => ?_
  cases slot with
  | general other => cases other <;> rfl
  | sequence other => exact hothers other fun heq => hslot (congrArg Slot.sequence heq)
  | extra name => rfl
  | sequenceExtra name =>
      exact congrArg (Entries.find? · name) (SequenceSettings.extra_set? hset)

theorem follows_extra (settings : Settings Float) (name : String) (value : Json) :
    settings.Follows [.put (.extra name) value]
      { settings with extra := settings.extra.insert name value } := by
  refine .put ?_ fun slot hslot => ?_
  · exact congrArg some ((Entries.find?_insert ..).trans (if_pos rfl)).symm
  · cases slot with
    | general other => cases other <;> rfl
    | sequence | sequenceExtra => rfl
    | extra other =>
        exact (Entries.find?_insert ..).trans
          (if_neg fun heq => hslot (congrArg Slot.extra heq))

theorem follows_sequenceExtra (settings : Settings Float) (name : String) (value : Json) :
    settings.Follows [.put (.sequenceExtra name) value]
      { settings with
        sequence :=
          { settings.sequence with extra := settings.sequence.extra.insert name value } } := by
  refine .put ?_ fun slot hslot => ?_
  · exact congrArg some ((Entries.find?_insert ..).trans (if_pos rfl)).symm
  · cases slot with
    | general other => cases other <;> rfl
    | sequence other => cases other <;> rfl
    | extra => rfl
    | sequenceExtra other =>
        exact (Entries.find?_insert ..).trans
          (if_neg fun heq => hslot (congrArg Slot.sequenceExtra heq))

theorem follows_layEntry {changed : SequenceSettings Float} {entry : String × Json}
    (hlay : settings.sequence.layEntry entry = (changed, none)) :
    settings.Follows [.ofPartEntry entry] { settings with sequence := changed } := by
  unfold SequenceSettings.layEntry at hlay
  unfold Assignment.ofPartEntry
  split at hlay
  · rename_i hassign
    obtain ⟨key, hkey, hset⟩ := SequenceSettings.assign?_eq_some hassign
    obtain rfl := congrArg Prod.fst hlay
    rw [hkey]
    exact follows_sequence hset
  · rename_i hassign
    obtain rfl := congrArg Prod.fst hlay
    rw [SequenceSettings.assign?_eq_none hassign]
    exact follows_sequenceExtra settings entry.1 entry.2
  · cases congrArg Prod.snd hlay

theorem follows_layEntries {changed : SequenceSettings Float} {entries : Entries}
    (hlay : settings.sequence.layEntries entries = (changed, none)) :
    settings.Follows (entries.map .ofPartEntry) { settings with sequence := changed } := by
  have hrun := follows_run (fun sequence : SequenceSettings Float => { settings with sequence })
    (fun entry => [Assignment.ofPartEntry entry]) (fun hstep => follows_layEntry hstep) hlay
  rwa [← List.map_eq_flatMap] at hrun

/-- A part that is read as a whole begins with standard settings. -/
theorem follows_ofJson? {changed : SequenceSettings Float} {part : Json}
    (hread : SequenceSettings.ofJson? part = some changed) (settings : Settings Float) :
    settings.Follows (.standardSequence :: part.entries.map .ofPartEntry)
      { settings with sequence := changed } := by
  obtain ⟨entries, rfl, hentries⟩ := SequenceSettings.ofJson?_eq_some hread
  obtain ⟨-, hlay⟩ := SequenceSettings.ofEntries?_eq_some_iff_layEntries.mp hentries
  have hstandard := follows_standardSequence settings
  exact hstandard.trans (follows_layEntries hlay)

theorem follows_layGeneralEntry {key : String} {value : Json}
    (hlay : settings.layGeneralEntry key value = (next, none)) :
    settings.Follows [.ofGeneralEntry (key, value)] next := by
  unfold layGeneralEntry at hlay
  unfold Assignment.ofGeneralEntry
  split at hlay
  · rename_i known hgeneral
    rw [hgeneral]
    split at hlay
    · rename_i changed hset
      obtain rfl : changed = next := congrArg Prod.fst hlay
      exact follows_general hset
    · cases congrArg Prod.snd hlay
  · rename_i hgeneral
    rw [hgeneral]
    split at hlay
    · rename_i hassign
      obtain ⟨known, hkey, hset⟩ := SequenceSettings.assign?_eq_some hassign
      obtain rfl := congrArg Prod.fst hlay
      rw [hkey]
      exact follows_sequence hset
    · rename_i hassign
      obtain rfl := congrArg Prod.fst hlay
      rw [SequenceSettings.assign?_eq_none hassign]
      exact follows_extra settings key value
    · cases congrArg Prod.snd hlay

theorem follows_layInitEntry {entry : String × Json}
    (hlay : settings.layInitEntry entry = (next, none)) :
    settings.Follows (FragmentKind.init.assignments entry) next := by
  unfold layInitEntry at hlay
  unfold FragmentKind.assignments
  split at hlay
  · rename_i hpart
    rw [if_pos hpart]
    split at hlay
    · rename_i changed hread
      obtain rfl := congrArg Prod.fst hlay
      exact follows_ofJson? hread settings
    · cases congrArg Prod.snd hlay
  · rename_i hpart
    rw [if_neg hpart]
    exact follows_layGeneralEntry hlay

theorem follows_layConfigEntry {entry : String × Json}
    (hlay : settings.layConfigEntry entry = (next, none)) :
    settings.Follows (FragmentKind.config.assignments entry) next := by
  unfold layConfigEntry at hlay
  unfold FragmentKind.assignments
  split at hlay
  · rename_i hpart
    rw [if_pos hpart]
    split at hlay
    · rename_i entries hentries
      rcases hrun : settings.sequence.layEntries entries with ⟨changed, fault⟩
      rw [hrun] at hlay
      obtain rfl : fault = none := congrArg Prod.snd hlay
      obtain rfl := congrArg Prod.fst hlay
      rw [hentries]
      exact follows_layEntries hrun
    · cases congrArg Prod.snd hlay
  · rename_i hpart
    rw [if_neg hpart]
    exact follows_layGeneralEntry hlay

theorem follows_applyFragment {fragment : Fragment}
    (happly : settings.applyFragment fragment = (next, none)) :
    settings.Follows fragment.assignments next := by
  unfold applyFragment at happly
  unfold Fragment.assignments
  split at happly
  · rename_i hkind
    rw [hkind]
    exact follows_run id _ (fun hstep => follows_layInitEntry hstep) happly
  · rename_i hkind
    rw [hkind]
    exact follows_run id _ (fun hstep => follows_layConfigEntry hstep) happly

/-- **The law of layers.** After fragments that apply without a fault, each slot holds the value
that was assigned to it last, or what it held before if none was. Every value that is assigned to a
setting is of its type. What is kept without a setting is never under a known key, if the settings
were standard before. -/
theorem applyFragments_follows {fragments : List Fragment}
    (happly : start.applyFragments fragments = (final, none)) :
    (∀ slot, final.value slot =
        (lastAssigned? (fragments.flatMap Fragment.assignments) slot).getD (start.value slot)) ∧
      (∀ assignment ∈ fragments.flatMap Fragment.assignments, assignment.Readable) ∧
      (start = .standard →
        (∀ key ∈ final.extra.keys, isSettingsKey key = false ∧ isSequenceKey key = false) ∧
          ∀ key ∈ final.sequence.extra.keys, isSequenceKey key = false) := by
  have hfollows : start.Follows (fragments.flatMap Fragment.assignments) final :=
    follows_run id _ (fun hstep => follows_applyFragment hstep) happly
  refine ⟨hfollows.value, hfollows.readable, ?_⟩
  rintro rfl
  have htidy := tidy_standard.applyFragments fragments
  rw [happly] at htidy
  exact ⟨fun key hkey => Bool.or_eq_false_iff.mp (htidy.extra.unknown key hkey),
    htidy.sequence.unknown⟩

/-- Later directives win, and a whole `sequence` part forgets the sequence settings before it. -/
theorem applyFragments_wrap :
    let fragments : List Fragment :=
      [{ kind := .config, entries := [("sequence", .object [("wrap", .bool true)])] },
        { kind := .init, entries := [("wrap", .bool true), ("sequence", .object [])] },
        { kind := .config, entries := [("theme", .string "dark"), ("hue", .bool true)] }]
    ∃ final, Settings.standard.applyFragments fragments = (final, none) ∧
      final.wrap = true ∧ final.sequence.wrap = false ∧ final.theme = some "dark" ∧
        final.extra.find? "hue" = some (.bool true) := by
  intro fragments
  have happly : Settings.standard.applyFragments fragments =
      ((Settings.standard.applyFragments fragments).1, none) := Prod.ext rfl rfl
  obtain ⟨hvalue, -, -⟩ := applyFragments_follows happly
  exact ⟨_, happly, hvalue (.general .wrap), hvalue (.sequence .wrap), hvalue (.general .theme),
    hvalue (.extra "hue")⟩

end Settings

end SequenceChart
