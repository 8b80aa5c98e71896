import SequenceChart.Proofs.Entries
import SequenceChart.Settings.Layer

/-!
# Fields of the sequence part

A `sequence` part is read in two ways: as a whole, where each field is looked up, or entry by entry,
where each entry changes the settings that are there. If the part gives no field twice, the first
does what the second does to standard settings.
-/

namespace SequenceChart

/-- What a setting of the `sequence` part holds. -/
def SequenceKey.Value : SequenceKey → Type
  | length _ => Float
  | mirrorActors => Bool
  | wrap => Bool
  | textPlacement => TextPlacement

def SequenceKey.read? : (key : SequenceKey) → Json → Option key.Value
  | length _ => Json.float?
  | mirrorActors => Json.bool?
  | wrap => Json.bool?
  | textPlacement => TextPlacement.ofJson?

theorem SequenceKey.name_of_ofName? {name : String} {key : SequenceKey}
    (hkey : ofName? name = some key) : key.name = name := by
  have hfound := List.find?_some hkey
  exact of_decide_eq_true hfound

theorem Entries.field?_cons {β : Type} (entry : String × Json) (entries : Entries) (name : String)
    (read? : Json → Option β) (standard : β) :
    field? (entry :: entries) name read? standard =
      if name = entry.1 then read? entry.2 else entries.field? name read? standard := by
  unfold field?
  rw [find?_cons]
  by_cases hname : name = entry.1
  · rw [if_pos hname, if_pos hname]
  · rw [if_neg hname, if_neg hname]

theorem Entries.field?_of_notMem {β : Type} {entries : Entries} {name : String}
    (hname : name ∉ entries.keys) (read? : Json → Option β) (standard : β) :
    entries.field? name read? standard = some standard := by
  induction entries with
  | nil => rfl
  | cons entry rest ih =>
      rw [keys_cons, List.mem_cons, not_or] at hname
      rw [field?_cons, if_neg hname.1]
      exact ih hname.2

namespace SequenceSettings

variable {settings changed start : SequenceSettings Float}

def value (settings : SequenceSettings Float) : (key : SequenceKey) → key.Value
  | .length key => settings.length key
  | .mirrorActors => settings.mirrorActors
  | .wrap => settings.wrap
  | .textPlacement => settings.textPlacement

/-- Settings with given values. -/
def ofValues (value : (key : SequenceKey) → key.Value) (extra : Entries) :
    SequenceSettings Float :=
  { diagramMarginX := value (.length .diagramMarginX)
    diagramMarginY := value (.length .diagramMarginY)
    actorMargin := value (.length .actorMargin)
    width := value (.length .width)
    height := value (.length .height)
    boxMargin := value (.length .boxMargin)
    boxTextMargin := value (.length .boxTextMargin)
    noteMargin := value (.length .noteMargin)
    messageMargin := value (.length .messageMargin)
    mirrorActors := value .mirrorActors
    bottomMarginAdj := value (.length .bottomMarginAdj)
    activationWidth := value (.length .activationWidth)
    wrapPadding := value (.length .wrapPadding)
    wrap := value .wrap
    messageFontSize := value (.length .messageFontSize)
    noteFontSize := value (.length .noteFontSize)
    actorFontSize := value (.length .actorFontSize)
    textPlacement := value .textPlacement
    extra }

/-- Settings are determined by what they hold under each key and without one. -/
theorem eq_of_value_eq {other : SequenceSettings Float}
    (hvalue : ∀ key, settings.value key = other.value key) (hextra : settings.extra = other.extra) :
    settings = other :=
  calc
    settings = ofValues settings.value settings.extra := rfl
    _ = ofValues other.value other.extra := by rw [funext hvalue, hextra]
    _ = other := rfl

theorem value_withExtra (settings : SequenceSettings Float) (extra : Entries)
    (key : SequenceKey) :
    ({ settings with extra } : SequenceSettings Float).value key = settings.value key := by
  cases key with
  | length key => cases key <;> rfl
  | mirrorActors | wrap | textPlacement => rfl

theorem set?_eq_some {key : SequenceKey} {value : Json}
    (hset : settings.set? key value = some changed) :
    key.read? value = some (changed.value key) ∧
      ∀ other, other ≠ key → changed.value other = settings.value other := by
  cases key with
  | length key =>
      obtain ⟨length, hlength, rfl⟩ := Option.map_eq_some_iff.mp hset
      constructor
      · have hset := settings.length_setLength key key length
        rw [if_pos rfl] at hset
        exact hlength.trans (congrArg some hset.symm)
      · intro other hother
        cases other with
        | length other =>
            have hkeys : other ≠ key := fun heq => hother (congrArg SequenceKey.length heq)
            exact (settings.length_setLength key other length).trans (if_neg hkeys)
        | mirrorActors | wrap | textPlacement => cases key <;> rfl
  | mirrorActors | wrap | textPlacement =>
      obtain ⟨value, hvalue, rfl⟩ := Option.map_eq_some_iff.mp hset
      refine ⟨hvalue, fun other hother => ?_⟩
      cases other with
      | length other => cases other <;> rfl
      | mirrorActors | wrap | textPlacement => first | rfl | exact absurd rfl hother

theorem isSome_set? (settings : SequenceSettings Float) (key : SequenceKey) (value : Json) :
    (settings.set? key value).isSome = (key.read? value).isSome := by
  cases key <;> exact Option.isSome_map

theorem extra_set? {key : SequenceKey} {value : Json}
    (hset : settings.set? key value = some changed) : changed.extra = settings.extra := by
  cases key with
  | length key =>
      obtain ⟨length, -, rfl⟩ := Option.map_eq_some_iff.mp hset
      cases key <;> rfl
  | mirrorActors | wrap | textPlacement =>
      obtain ⟨value, -, rfl⟩ := Option.map_eq_some_iff.mp hset
      rfl

theorem layEntry_unknown {entry : String × Json} (hkey : SequenceKey.ofName? entry.1 = none) :
    settings.layEntry entry =
      ({ settings with extra := settings.extra.insert entry.1 entry.2 }, none) := by
  unfold layEntry assign?
  rw [hkey]

theorem layEntry_known {entry : String × Json} {key : SequenceKey}
    (hkey : SequenceKey.ofName? entry.1 = some key)
    (hset : settings.set? key entry.2 = some changed) :
    settings.layEntry entry = (changed, none) := by
  unfold layEntry assign?
  simp only [hkey, hset]

theorem layEntry_refused {entry : String × Json} {key : SequenceKey}
    (hkey : SequenceKey.ofName? entry.1 = some key) (hset : settings.set? key entry.2 = none) :
    settings.layEntry entry = (settings, some (.invalidValue entry.1)) := by
  unfold layEntry assign?
  simp only [hkey, hset]

/-- What is read as the value of a setting that has a value already. -/
def readField? (start : SequenceSettings Float) (entries : Entries) (key : SequenceKey) :
    Option key.Value :=
  entries.field? key.name key.read? (start.value key)

/-- The settings are what the entries make of earlier ones, field by field. -/
structure ReadFrom (start : SequenceSettings Float) (entries : Entries)
    (settings : SequenceSettings Float) : Prop where
  field : ∀ key, start.readField? entries key = some (settings.value key)
  extra : settings.extra = (entries.filter fun entry => !isSequenceKey entry.1).foldl
    (fun kept entry => kept.insert entry.1 entry.2) start.extra

theorem readFrom_nil_iff : start.ReadFrom [] settings ↔ start = settings := by
  constructor
  · intro hread
    exact eq_of_value_eq (fun key => Option.some.inj (hread.field key)) hread.extra.symm
  · rintro rfl
    exact ⟨fun _ => rfl, rfl⟩

theorem readFrom_cons_unknown_iff {entry : String × Json} {entries : Entries}
    (hkey : SequenceKey.ofName? entry.1 = none) :
    start.ReadFrom (entry :: entries) settings ↔
      ({ start with extra := start.extra.insert entry.1 entry.2 } :
        SequenceSettings Float).ReadFrom entries settings := by
  have hfield (key : SequenceKey) : start.readField? (entry :: entries) key =
      readField? { start with extra := start.extra.insert entry.1 entry.2 } entries key := by
    have hname : key.name ≠ entry.1 := by
      intro hname
      rw [← hname, SequenceKey.ofName?_name] at hkey
      exact nomatch hkey
    unfold readField?
    rw [Entries.field?_cons, if_neg hname]
    exact congrArg _ (start.value_withExtra _ key).symm
  have hkept : (entry :: entries).filter (fun entry => !isSequenceKey entry.1) =
      entry :: entries.filter fun entry => !isSequenceKey entry.1 :=
    List.filter_cons_of_pos (by simp [isSequenceKey, hkey])
  constructor
  · intro hread
    refine ⟨fun key => (hfield key).symm.trans (hread.field key), ?_⟩
    have hextra := hread.extra
    rw [hkept] at hextra
    exact hextra
  · intro hread
    refine ⟨fun key => (hfield key).trans (hread.field key), ?_⟩
    rw [hkept]
    exact hread.extra

/-- A field that is given once takes the value that is set there. -/
theorem readFrom_cons_known_iff {entry : String × Json} {entries : Entries} {key : SequenceKey}
    (hkey : SequenceKey.ofName? entry.1 = some key) (hnew : entry.1 ∉ entries.keys)
    (hset : start.set? key entry.2 = some changed) :
    start.ReadFrom (entry :: entries) settings ↔ changed.ReadFrom entries settings := by
  obtain ⟨hread, hothers⟩ := set?_eq_some hset
  have hname : key.name = entry.1 := SequenceKey.name_of_ofName? hkey
  have hfield (other : SequenceKey) :
      start.readField? (entry :: entries) other = changed.readField? entries other := by
    unfold readField?
    rw [Entries.field?_cons]
    by_cases hother : other = key
    · subst hother
      rw [if_pos hname, Entries.field?_of_notMem (hname ▸ hnew)]
      exact hread
    · have hnames : other.name ≠ entry.1 := by
        intro hsame
        rw [← hsame, SequenceKey.ofName?_name] at hkey
        exact hother (Option.some.inj hkey)
      rw [if_neg hnames, hothers other hother]
  have hkept : (entry :: entries).filter (fun entry => !isSequenceKey entry.1) =
      entries.filter fun entry => !isSequenceKey entry.1 :=
    List.filter_cons_of_neg (by simp [isSequenceKey, hkey])
  constructor
  · intro hread
    refine ⟨fun other => (hfield other).symm.trans (hread.field other), ?_⟩
    rw [extra_set? hset, ← hkept]
    exact hread.extra
  · intro hread
    refine ⟨fun other => (hfield other).trans (hread.field other), ?_⟩
    rw [hkept, ← extra_set? hset]
    exact hread.extra

theorem not_readFrom_refused {entry : String × Json} {entries : Entries} {key : SequenceKey}
    (hkey : SequenceKey.ofName? entry.1 = some key) (hset : start.set? key entry.2 = none) :
    ¬start.ReadFrom (entry :: entries) settings := by
  intro hread
  have hfield := hread.field key
  unfold readField? at hfield
  rw [Entries.field?_cons, if_pos (SequenceKey.name_of_ofName? hkey)] at hfield
  have hsome := start.isSome_set? key entry.2
  rw [hset, hfield] at hsome
  exact Bool.false_ne_true hsome

/-- Laying entries one after the other reads them field by field. -/
theorem layEntries_eq_iff {entries : Entries}
    (hdistinct : (entries.keys.filter isSequenceKey).Nodup) :
    start.layEntries entries = (settings, none) ↔ start.ReadFrom entries settings := by
  induction entries generalizing start with
  | nil =>
      rw [readFrom_nil_iff]
      exact ⟨congrArg Prod.fst, fun hsame => congrArg (·, none) hsame⟩
  | cons entry rest ih =>
      rw [Entries.keys_cons] at hdistinct
      rw [layEntries, runSteps]
      cases hkey : SequenceKey.ofName? entry.1 with
      | none =>
          rw [List.filter_cons_of_neg (by simp [isSequenceKey, hkey])] at hdistinct
          rw [layEntry_unknown hkey, readFrom_cons_unknown_iff hkey]
          exact ih hdistinct
      | some key =>
          have hknown : isSequenceKey entry.1 = true := by
            rw [isSequenceKey, hkey]
            rfl
          rw [List.filter_cons_of_pos hknown, List.nodup_cons, List.mem_filter] at hdistinct
          have hnew : entry.1 ∉ Entries.keys rest := fun hmem => hdistinct.1 ⟨hmem, hknown⟩
          cases hset : start.set? key entry.2 with
          | none =>
              rw [layEntry_refused hkey hset]
              refine iff_of_false ?_ (not_readFrom_refused hkey hset)
              intro hlay
              cases hlay
          | some changed =>
              rw [layEntry_known hkey hset, readFrom_cons_known_iff hkey hnew hset]
              exact ih hdistinct.2

/-- Every field that is looked up is that of one key, under its name. -/
theorem ofEntries?_eq_some_iff {entries : Entries} :
    ofEntries? entries = some settings ↔
      (entries.keys.filter isSequenceKey).Nodup ∧ standard.ReadFrom entries settings := by
  unfold ofEntries? guard
  by_cases hdistinct : (entries.keys.filter isSequenceKey).Nodup
  · rw [if_pos hdistinct]
    have hbind {α β : Type} (found : Option α) (next : α → Option β) (result : β) :
        (found >>= next) = some result ↔ ∃ value, found = some value ∧ next value = some result :=
      Option.bind_eq_some_iff
    -- The outermost field first: what is read after it is opened only once.
    simp only [↓hbind]
    constructor
    · rintro ⟨_, -, diagramMarginX, hdiagramMarginX, diagramMarginY, hdiagramMarginY, actorMargin,
        hactorMargin, width, hwidth, height, hheight, boxMargin, hboxMargin, boxTextMargin,
        hboxTextMargin, noteMargin, hnoteMargin, messageMargin, hmessageMargin, mirrorActors,
        hmirrorActors, bottomMarginAdj, hbottomMarginAdj, activationWidth, hactivationWidth,
        wrapPadding, hwrapPadding, wrap, hwrap, messageFontSize, hmessageFontSize, noteFontSize,
        hnoteFontSize, actorFontSize, hactorFontSize, textPlacement, htextPlacement, hsettings⟩
      obtain rfl := Option.some.inj hsettings
      refine ⟨hdistinct, ?_, rfl⟩
      intro key
      cases key with
      | length key => cases key <;> assumption
      | mirrorActors | wrap | textPlacement => assumption
    · rintro ⟨-, hfield, hextra⟩
      refine ⟨(), rfl, _, hfield (.length .diagramMarginX), _, hfield (.length .diagramMarginY), _,
        hfield (.length .actorMargin), _, hfield (.length .width), _, hfield (.length .height), _,
        hfield (.length .boxMargin), _, hfield (.length .boxTextMargin), _,
        hfield (.length .noteMargin), _, hfield (.length .messageMargin), _, hfield .mirrorActors,
        _, hfield (.length .bottomMarginAdj), _, hfield (.length .activationWidth), _,
        hfield (.length .wrapPadding), _, hfield .wrap, _, hfield (.length .messageFontSize), _,
        hfield (.length .noteFontSize), _, hfield (.length .actorFontSize), _,
        hfield .textPlacement, ?_⟩
      exact congrArg some (eq_of_value_eq (settings.value_withExtra _) hextra.symm)
  · rw [if_neg hdistinct]
    exact iff_of_false nofun fun hread => hdistinct hread.1

/-- A part that is read as a whole is read as its entries are laid over standard settings. -/
theorem ofEntries?_eq_some_iff_layEntries {entries : Entries} :
    ofEntries? entries = some settings ↔
      (entries.keys.filter isSequenceKey).Nodup ∧
        standard.layEntries entries = (settings, none) :=
  ofEntries?_eq_some_iff.trans
    (and_congr_right fun hdistinct => (layEntries_eq_iff hdistinct).symm)

theorem ofJson?_eq_some {part : Json} (hread : ofJson? part = some settings) :
    ∃ entries, part = .object entries ∧ ofEntries? entries = some settings := by
  cases part with
  | object entries => exact ⟨entries, rfl, hread⟩
  | null | bool | number | string | array => exact nomatch hread

end SequenceSettings

end SequenceChart
