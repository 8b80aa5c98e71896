import SequenceChart.Proofs.Finite
import SequenceChart.Proofs.Layering

/-!
# Written settings read back

Settings that come from the standard ones by layers of JSON values are written to an object that
gives them back, whether it is read as a whole set of settings or laid over the standard ones. Two
things make this true. Their numbers are finite, so that each has a written form, and no entry that
is kept without a setting has the name of one.
-/

namespace SequenceChart

/-- A number that a JSON value may hold: whole and of 64 bits, or finite. -/
def Number.Valid : Number → Prop
  | whole value => -2 ^ 63 ≤ value ∧ value < 2 ^ 64
  | real value => value.isFinite = true

/-- All numbers in the value are valid. -/
inductive Json.Valid : Json → Prop
  | null : Valid null
  | bool (value : Bool) : Valid (bool value)
  | number {value : Number} : value.Valid → Valid (number value)
  | string (value : String) : Valid (string value)
  | array {elements : List Json} : (∀ element ∈ elements, Valid element) → Valid (array elements)
  | object {entries : List (String × Json)} :
      (∀ entry ∈ entries, Valid entry.2) → Valid (object entries)

theorem Json.Valid.isFinite {value : Json} (hvalid : value.Valid) {number : Float}
    (hread : value.float? = some number) : number.isFinite = true := by
  cases hvalid with
  | null | bool | string | array | object => cases hread
  | @number written hwritten =>
      obtain rfl := Option.some.inj hread
      cases written with
      | real value => exact hwritten
      | whole value =>
          have hlower : -2 ^ 63 ≤ value := hwritten.1
          have hupper : value < 2 ^ 64 := hwritten.2
          exact Rounding.isFinite_ofInt (by omega)

theorem Json.Valid.entries {value : Json} (hvalid : value.Valid) :
    ∀ entry ∈ value.entries, entry.2.Valid := by
  cases hvalid with
  | null | bool | string | number | array => exact fun _ hmem => (List.not_mem_nil hmem).elim
  | object hentries => exact hentries

/-- The values that a fragment assigns are among its own. -/
theorem Fragment.valid_assignments {fragment : Fragment}
    (hentries : ∀ entry ∈ fragment.entries, entry.2.Valid) {slot : Slot} {value : Json}
    (hmem : .put slot value ∈ fragment.assignments) : value.Valid := by
  have hpart {entry inner : String × Json} (hvalid : entry.2.Valid)
      (hinner : inner ∈ entry.2.entries) (heq : .ofPartEntry inner = Assignment.put slot value) :
      value.Valid := by
    have hvalue : inner.2 = value := by
      unfold Assignment.ofPartEntry at heq
      split at heq <;> exact (Assignment.put.inj heq).2
    exact hvalue ▸ hvalid.entries inner hinner
  obtain ⟨entry, hentry, hput⟩ := List.mem_flatMap.mp hmem
  have hvalid := hentries entry hentry
  unfold FragmentKind.assignments at hput
  split at hput
  · split at hput
    · rcases List.mem_cons.mp hput with heq | hput
      · cases heq
      · obtain ⟨inner, hinner, heq⟩ := List.mem_map.mp hput
        exact hpart hvalid hinner heq
    · obtain ⟨inner, hinner, heq⟩ := List.mem_map.mp hput
      exact hpart hvalid hinner heq
  · have heq := List.mem_singleton.mp hput
    have hvalue : value = entry.2 := by
      unfold Assignment.ofGeneralEntry at heq
      split at heq <;> exact (Assignment.put.inj heq).2
    exact hvalue ▸ hvalid

namespace Settings

/-- Settings that come from the standard ones by fragments and single sequence settings. -/
inductive Reached : Settings Float → Prop
  | standard : Reached standard
  | init {settings next : Settings Float} {fragment : Entries} : Reached settings →
      (∀ entry ∈ fragment, entry.2.Valid) → settings.applyInit fragment = (next, none) →
      Reached next
  | config {settings next : Settings Float} {fragment : Entries} : Reached settings →
      (∀ entry ∈ fragment, entry.2.Valid) → settings.applyConfig fragment = (next, none) →
      Reached next
  | assign {settings : Settings Float} {changed : Option (SequenceSettings Float)} {key : String}
      {value : Json} : Reached settings → value.Valid →
      settings.sequence.assign? key value = .ok changed →
      Reached { settings with sequence := changed.getD settings.sequence }

/-- All numbers of the settings are finite. -/
structure Finite (settings : Settings Float) : Prop where
  lengths : ∀ key, (settings.sequence.length key).isFinite = true
  fontSize : ∀ size, settings.fontSize = some size → size.isFinite = true

variable {start settings final : Settings Float} {assigned : List Assignment}

theorem finite_standard : standard.Finite where
  lengths key := by cases key <;> rfl
  fontSize _ hsize := by cases hsize

/-- What holds at first, and of every value that is assigned, holds in the end. -/
theorem Follows.holds (hfollows : start.Follows assigned final) (slot : Slot)
    (Holds : slot.Value → Prop) (hstart : Holds (start.value slot))
    (hsets : ∀ assignment ∈ assigned, ∀ held, assignment.sets? slot = some held → Holds held) :
    Holds (final.value slot) := by
  rw [hfollows.value]
  cases hlast : lastAssigned? assigned slot with
  | none => exact hstart
  | some held =>
      obtain ⟨assignment, hmem, hheld⟩ := List.mem_filterMap.mp (List.mem_of_getLast? hlast)
      exact hsets assignment hmem held hheld

theorem eq_some_of_readOptional? {β : Type} {read? : Json → Option β} {value : Json} {held : β}
    (hread : readOptional? read? value = some (some held)) : read? value = some held := by
  unfold readOptional? at hread
  split at hread
  · cases hread
  · obtain ⟨found, hfound, heq⟩ := Option.map_eq_some_iff.mp hread
    exact hfound.trans heq

/-- Assignments of valid values leave the numbers finite. -/
theorem Follows.finite (hfollows : start.Follows assigned final) (hstart : start.Finite)
    (hvalid : ∀ slot value, .put slot value ∈ assigned → value.Valid) : final.Finite where
  lengths key := by
    refine hfollows.holds (.sequence (.length key)) (fun length : Float => length.isFinite = true)
      (hstart.lengths key) fun assignment hmem length hsets => ?_
    cases assignment with
    | standardSequence =>
        obtain rfl := Option.some.inj hsets
        exact finite_standard.lengths key
    | put slot value =>
        rw [Assignment.sets?] at hsets
        split at hsets
        · exact (hvalid slot value hmem).isFinite hsets
        · cases hsets
  fontSize := by
    refine hfollows.holds (.general .fontSize)
      (fun fontSize : Option Float => ∀ size, fontSize = some size → size.isFinite = true)
      hstart.fontSize fun assignment hmem fontSize hsets size hsize => ?_
    cases assignment with
    | standardSequence => cases hsets
    | put slot value =>
        rw [Assignment.sets?] at hsets
        split at hsets
        · rw [hsize] at hsets
          exact (hvalid slot value hmem).isFinite (eq_some_of_readOptional? hsets)
        · cases hsets

theorem Reached.tidy (hreached : settings.Reached) : settings.Tidy := by
  induction hreached with
  | standard => exact tidy_standard
  | @init _ _ fragment _ _ happly ih =>
      have htidy := ih.applyInit fragment
      rwa [happly] at htidy
  | @config _ _ fragment _ _ happly ih =>
      have htidy := ih.applyConfig fragment
      rwa [happly] at htidy
  | @assign _ changed _ _ _ _ hassign ih =>
      cases changed with
      | none => exact ih
      | some sequence => exact ⟨ih.extra, SequenceSettings.extra_assign? hassign ▸ ih.sequence⟩

theorem Finite.applyFragment (hfinite : start.Finite) {fragment : Fragment}
    (hvalid : ∀ entry ∈ fragment.entries, entry.2.Valid)
    (happly : start.applyFragment fragment = (final, none)) : final.Finite :=
  (follows_applyFragment happly).finite hfinite fun _ _ hmem =>
    Fragment.valid_assignments hvalid hmem

theorem Reached.finite (hreached : settings.Reached) : settings.Finite := by
  induction hreached with
  | standard => exact finite_standard
  | @init settings _ fragment _ hvalid happly ih =>
      let applied : Fragment := { kind := .init, entries := fragment }
      have happlied : settings.applyFragment applied = _ := happly
      exact ih.applyFragment hvalid happlied
  | @config settings _ fragment _ hvalid happly ih =>
      let applied : Fragment := { kind := .config, entries := fragment }
      have happlied : settings.applyFragment applied = _ := happly
      exact ih.applyFragment hvalid happlied
  | @assign _ changed _ _ _ hvalid hassign ih =>
      cases changed with
      | none => exact ih
      | some sequence =>
          obtain ⟨known, -, hset⟩ := SequenceSettings.assign?_eq_some hassign
          refine (follows_sequence hset).finite ih fun slot value hmem => ?_
          obtain ⟨-, rfl⟩ := Assignment.put.inj (List.mem_singleton.mp hmem)
          exact hvalid

end Settings

/-! ### Writing

The keys are written one after the other, and each is read into a slot of its own. So what is read
agrees with what was written under every key that has been read, and in the end under all of
them. -/

/-- What agrees under the first key already, and then is only changed under the others to agree
there, agrees under all of them. -/
theorem agree_cons {Key : Type} {Value : Key → Type} {start final wanted : (key : Key) → Value key}
    {key : Key} {rest : List Key} (hwritten : ∀ other ∈ rest, final other = wanted other)
    (hkept : ∀ other, other ∉ rest → final other = start other) (hfirst : start key = wanted key) :
    ∀ other ∈ key :: rest, final other = wanted other := by
  intro other hother
  by_cases hrest : other ∈ rest
  · exact hwritten other hrest
  · obtain rfl : other = key := (List.mem_cons.mp hother).resolve_right hrest
    exact (hkept other hrest).trans hfirst

/-- The keys of the `sequence` part in the order in which they are written. -/
def SequenceKey.written : List SequenceKey :=
  [.length .diagramMarginX, .length .diagramMarginY, .length .actorMargin, .length .width,
    .length .height, .length .boxMargin, .length .boxTextMargin, .length .noteMargin,
    .length .messageMargin, .mirrorActors, .length .bottomMarginAdj, .length .activationWidth,
    .length .wrapPadding, .wrap, .length .messageFontSize, .length .noteFontSize,
    .length .actorFontSize, .textPlacement]

theorem SequenceKey.mem_written (key : SequenceKey) : key ∈ written := by
  cases key with
  | length key => cases key <;> decide
  | mirrorActors | wrap | textPlacement => decide

namespace SequenceSettings

variable {settings start : SequenceSettings Float}

/-- What is written of a setting. -/
def write (settings : SequenceSettings Float) : SequenceKey → Json
  | .length key => .ofFloat (settings.length key)
  | .mirrorActors => .bool settings.mirrorActors
  | .wrap => .bool settings.wrap
  | .textPlacement => .string settings.textPlacement.name

theorem toJson_eq (settings : SequenceSettings Float) :
    settings.toJson = .object
      ((SequenceKey.written.map fun key => (key.name, settings.write key)) ++ settings.extra) :=
  rfl

theorem read?_write (hfinite : ∀ key, (settings.length key).isFinite = true) (key : SequenceKey) :
    key.read? (settings.write key) = some (settings.value key) := by
  cases key with
  | length key =>
      rw [write, Json.ofFloat, if_pos (hfinite key)]
      rfl
  | mirrorActors | wrap => rfl
  | textPlacement =>
      have hname (placement : TextPlacement) :
          TextPlacement.ofName? placement.name = some placement := by
        cases placement <;> rfl
      exact hname settings.textPlacement

theorem exists_set? (start : SequenceSettings Float) {key : SequenceKey} {value : Json}
    {held : key.Value} (hread : key.read? value = some held) :
    ∃ changed, start.set? key value = some changed := by
  cases key <;> exact ⟨_, congrArg (Option.map _) hread⟩

/-- Writing the settings under some keys and reading them moves what they hold. -/
theorem layEntries_write (hfinite : ∀ key, (settings.length key).isFinite = true)
    (keys : List SequenceKey) (start : SequenceSettings Float) :
    ∃ next, start.layEntries (keys.map fun key => (key.name, settings.write key)) = (next, none) ∧
      next.extra = start.extra ∧ (∀ key ∈ keys, next.value key = settings.value key) ∧
      ∀ key, key ∉ keys → next.value key = start.value key := by
  induction keys generalizing start with
  | nil => exact ⟨start, rfl, rfl, fun _ hmem => (List.not_mem_nil hmem).elim, fun _ _ => rfl⟩
  | cons key rest ih =>
      have hread := read?_write hfinite key
      obtain ⟨changed, hset⟩ := start.exists_set? hread
      obtain ⟨hheld, hothers⟩ := set?_eq_some hset
      rw [hread] at hheld
      have hlay : start.layEntry (key.name, settings.write key) = (changed, none) := by
        rw [layEntry, assign?, SequenceKey.ofName?_name]
        simp only [hset]
      obtain ⟨next, hrun, hextra, hwritten, hkept⟩ := ih changed
      refine ⟨next, ?_, hextra.trans (extra_set? hset), ?_, ?_⟩
      · rw [layEntries, List.map_cons, runSteps, hlay]
        exact hrun
      · exact agree_cons hwritten hkept (Option.some.inj hheld).symm
      · intro other hother
        rw [List.mem_cons, not_or] at hother
        rw [hkept other hother.2]
        exact hothers other hother.1

/-- Unknown entries are added in their order. -/
theorem layEntries_unknown {entries : Entries}
    (hunknown : (start.extra ++ entries).Unknown isSequenceKey) :
    start.layEntries entries = ({ start with extra := start.extra ++ entries }, none) := by
  induction entries generalizing start with
  | nil =>
      rw [List.append_nil]
      rfl
  | cons entry rest ih =>
      obtain ⟨hkey, hinsert⟩ := hunknown.append_cons
      have hname : SequenceKey.ofName? entry.1 = none := by simpa [isSequenceKey] using hkey
      have hlay :
          start.layEntry entry = ({ start with extra := start.extra ++ [entry] }, none) := by
        rw [layEntry, assign?, hname]
        simp only [hinsert]
      rw [List.append_cons] at hunknown ⊢
      rw [layEntries, runSteps, hlay]
      exact ih hunknown

theorem nodup_known_write (hunknown : settings.extra.Unknown isSequenceKey) :
    ((Entries.keys ((SequenceKey.written.map fun key => (key.name, settings.write key)) ++
      settings.extra)).filter isSequenceKey).Nodup := by
  have hextra : settings.extra.keys.filter isSequenceKey = [] := by
    apply List.filter_eq_nil_iff.mpr
    intro key hkey
    rw [hunknown.unknown key hkey]
    exact Bool.false_ne_true
  have hwritten : ((SequenceKey.written.map SequenceKey.name).filter isSequenceKey).Nodup := by
    decide
  unfold Entries.keys at hextra ⊢
  rw [List.map_append, List.filter_append, hextra, List.append_nil]
  exact hwritten

theorem ofJson?_toJson (hfinite : ∀ key, (settings.length key).isFinite = true)
    (hunknown : settings.extra.Unknown isSequenceKey) :
    ofJson? settings.toJson = some settings := by
  obtain ⟨next, hwritten, hextra, hvalue, -⟩ :=
    layEntries_write hfinite SequenceKey.written standard
  have hnone : next.extra = [] := hextra
  have hunknown' : (next.extra ++ settings.extra).Unknown isSequenceKey := by
    rw [hnone]
    exact hunknown
  have hlay : standard.layEntries ((SequenceKey.written.map fun key =>
      (key.name, settings.write key)) ++ settings.extra) = (settings, none) := by
    unfold layEntries at hwritten ⊢
    rw [runSteps_append, hwritten]
    refine (layEntries_unknown hunknown').trans ?_
    have hsame : ({ next with extra := next.extra ++ settings.extra } :
        SequenceSettings Float) = settings := by
      refine eq_of_value_eq (fun key => ?_) ?_
      · rw [value_withExtra]
        exact hvalue key key.mem_written
      · rw [hnone]
        rfl
    rw [hsame]
  rw [toJson_eq]
  exact ofEntries?_eq_some_iff_layEntries.mpr ⟨nodup_known_write hunknown, hlay⟩

end SequenceSettings

namespace Settings

variable {settings start next : Settings Float}

/-- What is written of a setting; nothing, if it is absent. -/
def write? (settings : Settings Float) : GeneralKey → Option Json
  | .theme => settings.theme.map Json.string
  | .logLevel => settings.logLevel.map LogLevel.toJson
  | .fontFamily => settings.fontFamily.map Json.string
  | .fontSize => settings.fontSize.map Json.ofFloat
  | .fontWeight => settings.fontWeight.map FontWeight.toJson
  | .wrap => some (.bool settings.wrap)

def pair? (settings : Settings Float) (key : GeneralKey) : Option (String × Json) :=
  (settings.write? key).map fun value => (key.name, value)

theorem toJson_eq (settings : Settings Float) :
    settings.toJson = .object (GeneralKey.all.filterMap settings.pair? ++
      (sequencePart, settings.sequence.toJson) :: settings.extra) := by
  rcases settings with ⟨theme, logLevel, fontFamily, fontSize, fontWeight, wrap, sequence, extra⟩
  cases theme <;> cases logLevel <;> cases fontFamily <;> cases fontSize <;> cases fontWeight <;>
    rfl

theorem natural?_ofNat {number limit : Nat} (hlimit : number < limit) :
    (Json.ofNat number).natural? limit = some number := by
  have hrange : (0 : Int) ≤ number ∧ (number : Int).toNat < limit :=
    ⟨Int.natCast_nonneg number, by rwa [Int.toNat_natCast]⟩
  rw [Json.ofNat, Json.natural?, if_pos hrange, Int.toNat_natCast]

theorem logLevel_ofJson?_toJson (level : LogLevel) :
    LogLevel.ofJson? level.toJson = some level := by
  cases level with
  | name value => rfl
  | number value =>
      rw [LogLevel.toJson, LogLevel.ofJson?, natural?_ofNat value.toNat_lt]
      simp only [UInt8.ofNat_toNat]

theorem fontWeight_ofJson?_toJson (weight : FontWeight) :
    FontWeight.ofJson? weight.toJson = some weight := by
  cases weight with
  | name value => rfl
  | number value =>
      rw [FontWeight.toJson, FontWeight.ofJson?, natural?_ofNat value.toNat_lt]
      simp only [UInt32.ofNat_toNat]

theorem readOptional?_eq_some {β : Type} {read? : Json → Option β} {value : Json} {held : β}
    (hnull : value ≠ .null) (hread : read? value = some held) :
    readOptional? read? value = some (some held) := by
  unfold readOptional?
  split
  · exact absurd rfl hnull
  · rw [hread]
    rfl

theorem read?_write? (hfinite : settings.Finite) {key : GeneralKey} {value : Json}
    (hwrite : settings.write? key = some value) :
    key.read? value = some (settings.value (.general key)) := by
  cases key with
  | theme | fontFamily =>
      obtain ⟨text, htext, rfl⟩ := Option.map_eq_some_iff.mp hwrite
      exact congrArg some htext.symm
  | logLevel =>
      obtain ⟨level, hlevel, rfl⟩ := Option.map_eq_some_iff.mp hwrite
      have hnull : level.toJson ≠ .null := by cases level <;> exact Json.noConfusion
      exact (readOptional?_eq_some hnull (logLevel_ofJson?_toJson level)).trans
        (congrArg some hlevel.symm)
  | fontSize =>
      obtain ⟨size, hsize, rfl⟩ := Option.map_eq_some_iff.mp hwrite
      rw [Json.ofFloat, if_pos (hfinite.fontSize size hsize)]
      exact congrArg some hsize.symm
  | fontWeight =>
      obtain ⟨weight, hweight, rfl⟩ := Option.map_eq_some_iff.mp hwrite
      have hnull : weight.toJson ≠ .null := by cases weight <;> exact Json.noConfusion
      exact (readOptional?_eq_some hnull (fontWeight_ofJson?_toJson weight)).trans
        (congrArg some hweight.symm)
  | wrap =>
      obtain rfl := Option.some.inj hwrite
      rfl

/-- What is not written is absent, as it is from standard settings. -/
theorem value_of_write?_eq_none {key : GeneralKey} (hwrite : settings.write? key = none) :
    standard.value (.general key) = settings.value (.general key) := by
  cases key with
  | theme | logLevel | fontFamily | fontSize | fontWeight =>
      exact (Option.map_eq_none_iff.mp hwrite).symm
  | wrap => cases hwrite

theorem exists_set? (start : Settings Float) {key : GeneralKey} {value : Json} {held : key.Value}
    (hread : key.read? value = some held) : ∃ changed, start.set? key value = some changed := by
  cases key <;> exact ⟨_, congrArg (Option.map _) hread⟩

/-- Settings with given values. -/
def ofValues (value : (key : GeneralKey) → key.Value) (sequence : SequenceSettings Float)
    (extra : Entries) : Settings Float :=
  { theme := value .theme
    logLevel := value .logLevel
    fontFamily := value .fontFamily
    fontSize := value .fontSize
    fontWeight := value .fontWeight
    wrap := value .wrap
    sequence
    extra }

theorem eq_of_value_eq {other : Settings Float}
    (hvalue : ∀ key, settings.value (.general key) = other.value (.general key))
    (hsequence : settings.sequence = other.sequence) (hextra : settings.extra = other.extra) :
    settings = other :=
  calc
    settings = ofValues (fun key => settings.value (.general key)) settings.sequence
        settings.extra := rfl
    _ = ofValues (fun key => other.value (.general key)) other.sequence other.extra := by
        rw [hsequence, hextra]
        exact congrArg (ofValues · other.sequence other.extra) (funext hvalue)
    _ = other := rfl

theorem readEntry_write (start : Settings Float) (key : GeneralKey) (value : Json) :
    readEntry? start (key.name, value) = start.set? key value := by
  have hpart : key.name ≠ sequencePart := by cases key <;> decide
  unfold readEntry?
  rw [if_neg hpart, GeneralKey.ofName?_name]

/-- Writing the settings under some keys and reading them moves what they hold. -/
theorem readEntries_write (hfinite : settings.Finite) (keys : List GeneralKey)
    {start : Settings Float} (habsent : ∀ key, settings.write? key = none →
      start.value (.general key) = settings.value (.general key)) :
    ∃ next, (keys.filterMap settings.pair?).foldlM readEntry? start = some next ∧
      next.sequence = start.sequence ∧ next.extra = start.extra ∧
      (∀ key ∈ keys, next.value (.general key) = settings.value (.general key)) ∧
      ∀ key, key ∉ keys → next.value (.general key) = start.value (.general key) := by
  induction keys generalizing start with
  | nil => exact ⟨start, rfl, rfl, rfl, fun _ hmem => (List.not_mem_nil hmem).elim, fun _ _ => rfl⟩
  | cons key rest ih =>
      cases hwrite : settings.write? key with
      | none =>
          have hentry : settings.pair? key = none := by rw [pair?, hwrite]; rfl
          rw [List.filterMap_cons_none hentry]
          obtain ⟨next, hrun, hsequence, hextra, hwritten, hkept⟩ := ih habsent
          exact ⟨next, hrun, hsequence, hextra, agree_cons hwritten hkept (habsent key hwrite),
            fun other hother => hkept other fun hmem => hother (List.mem_cons_of_mem _ hmem)⟩
      | some value =>
          have hentry : settings.pair? key = some (key.name, value) := by rw [pair?, hwrite]; rfl
          have hread := read?_write? hfinite hwrite
          obtain ⟨changed, hset⟩ := start.exists_set? hread
          obtain ⟨hheld, hothers⟩ := general_set?_eq_some hset
          obtain ⟨hextra, hsequence⟩ := extras_set? hset
          rw [hread] at hheld
          have habsent' (other : GeneralKey) (hother : settings.write? other = none) :
              changed.value (.general other) = settings.value (.general other) := by
            have hne : other ≠ key := by
              rintro rfl
              rw [hwrite] at hother
              cases hother
            exact (hothers other hne).trans (habsent other hother)
          obtain ⟨next, hrun, hsequence', hextra', hwritten, hkept⟩ := ih habsent'
          refine ⟨next, ?_, hsequence'.trans hsequence, hextra'.trans hextra, ?_, ?_⟩
          · rw [List.filterMap_cons_some hentry, List.foldlM_cons, readEntry_write, hset]
            exact hrun
          · exact agree_cons hwritten hkept (Option.some.inj hheld).symm
          · intro other hother
            rw [List.mem_cons, not_or] at hother
            exact (hkept other hother.2).trans (hothers other hother.1)

/-- Unknown entries are added in their order. -/
theorem readEntries_unknown {entries : Entries}
    (hunknown : (start.extra ++ entries).Unknown isKnownKey) :
    entries.foldlM readEntry? start = some { start with extra := start.extra ++ entries } := by
  induction entries generalizing start with
  | nil =>
      rw [List.append_nil]
      rfl
  | cons entry rest ih =>
      obtain ⟨hkey, hinsert⟩ := hunknown.append_cons
      obtain ⟨hsettings, -⟩ := Bool.or_eq_false_iff.mp hkey
      obtain ⟨hpart, hname⟩ := Bool.or_eq_false_iff.mp hsettings
      have hname : GeneralKey.ofName? entry.1 = none := by simpa using hname
      have hread : readEntry? start entry =
          some { start with extra := start.extra ++ [entry] } := by
        unfold readEntry?
        rw [if_neg (of_decide_eq_false hpart), hname]
        simp only [hinsert]
      rw [List.append_cons] at hunknown ⊢
      rw [List.foldlM_cons, hread]
      exact ih hunknown

theorem readEntries_toJson (hfinite : settings.Finite) (htidy : settings.Tidy) :
    (GeneralKey.all.filterMap settings.pair? ++
      (sequencePart, settings.sequence.toJson) :: settings.extra).foldlM readEntry? standard =
        some settings := by
  obtain ⟨next, hwritten, -, hextra, hvalue, -⟩ :=
    readEntries_write hfinite GeneralKey.all fun _ => value_of_write?_eq_none
  have hnone : next.extra = [] := hextra
  let middle : Settings Float := { next with sequence := settings.sequence }
  have hsequence : readEntry? next (sequencePart, settings.sequence.toJson) = some middle := by
    unfold readEntry?
    rw [if_pos rfl, SequenceSettings.ofJson?_toJson hfinite.lengths htidy.sequence]
    rfl
  have hunknown : (middle.extra ++ settings.extra).Unknown isKnownKey := by
    rw [show middle.extra = [] from hnone]
    exact htidy.extra
  have hsame : { middle with extra := middle.extra ++ settings.extra } = settings := by
    refine eq_of_value_eq (fun key => ?_) rfl ?_
    · have hheld := hvalue key (by cases key <;> decide)
      cases key <;> exact hheld
    · rw [show middle.extra = [] from hnone]
      rfl
  rw [List.foldlM_append, hwritten]
  change List.foldlM readEntry? next _ = _
  rw [List.foldlM_cons, hsequence]
  exact (readEntries_unknown hunknown).trans (congrArg some hsame)

/-- An entry that is read as a part of a whole set of settings may be laid over settings, if it does
not give a sequence setting outside its part. -/
theorem layInitEntry_of_read {entry : String × Json}
    (hentry : isSettingsKey entry.1 = true ∨ isSequenceKey entry.1 = false)
    (hread : readEntry? settings entry = some next) :
    settings.layInitEntry entry = (next, none) := by
  unfold readEntry? at hread
  unfold layInitEntry
  split at hread
  · rename_i hpart
    obtain ⟨sequence, hsequence, rfl⟩ := Option.map_eq_some_iff.mp hread
    rw [if_pos hpart, hsequence]
  · rename_i hpart
    rw [if_neg hpart, layGeneralEntry]
    cases hgeneral : GeneralKey.ofName? entry.1 with
    | some known =>
        have hset : settings.set? known entry.2 = some next := by
          simpa only [hgeneral] using hread
        simp only [hset]
    | none =>
        have hname : SequenceKey.ofName? entry.1 = none := by
          simpa [isSettingsKey, isSequenceKey, hpart, hgeneral] using hentry
        have hassign : settings.sequence.assign? entry.1 entry.2 = .ok none := by
          rw [SequenceSettings.assign?, hname]
        have hnext : some { settings with extra := settings.extra.insert entry.1 entry.2 } =
            some next := by
          simpa only [hgeneral] using hread
        simp only [hassign, Option.some.inj hnext]

theorem applyInit_of_readEntries {entries : Entries}
    (hentries : ∀ entry ∈ entries,
      isSettingsKey entry.1 = true ∨ isSequenceKey entry.1 = false)
    (hread : entries.foldlM readEntry? start = some settings) :
    start.applyInit entries = (settings, none) := by
  induction entries generalizing start with
  | nil => rw [← Option.some.inj hread]; rfl
  | cons entry rest ih =>
      rw [List.foldlM_cons] at hread
      obtain ⟨next, hnext, hrest⟩ := Option.bind_eq_some_iff.mp hread
      have hlay := layInitEntry_of_read (hentries entry List.mem_cons_self) hnext
      rw [applyInit, runSteps, hlay]
      exact ih (fun other hother => hentries other (List.mem_cons_of_mem _ hother)) hrest

theorem applyInit_toJson (hfinite : settings.Finite) (htidy : settings.Tidy) :
    standard.applyInit (GeneralKey.all.filterMap settings.pair? ++
      (sequencePart, settings.sequence.toJson) :: settings.extra) = (settings, none) := by
  refine applyInit_of_readEntries (fun entry hentry => ?_) (readEntries_toJson hfinite htidy)
  rcases List.mem_append.mp hentry with hgeneral | hother
  · obtain ⟨key, -, hkey⟩ := List.mem_filterMap.mp hgeneral
    obtain ⟨value, -, rfl⟩ := Option.map_eq_some_iff.mp hkey
    exact .inl (by cases key <;> rfl)
  · rcases List.mem_cons.mp hother with rfl | hextra
    · exact .inl rfl
    · have hunknown := htidy.extra.unknown entry.1 (List.mem_map_of_mem hextra)
      exact .inr (Bool.or_eq_false_iff.mp hunknown).2

/-- **Written settings read back.** Settings that come from the standard ones by layers of JSON
values are written to an object that gives the same settings, with the entries that are kept in
their order, when it is read as a whole and also when it is laid over the standard settings. -/
theorem Reached.reads_back (hreached : settings.Reached) :
    ofJson? settings.toJson = some settings ∧
      ∃ entries, settings.toJson = .object entries ∧
        Settings.standard.applyInit entries = (settings, none) := by
  have hfinite := hreached.finite
  have htidy := hreached.tidy
  refine ⟨?_, _, toJson_eq settings, applyInit_toJson hfinite htidy⟩
  rw [toJson_eq, ofJson?]
  exact readEntries_toJson hfinite htidy

/-- Entries without a setting are kept in both places. -/
theorem reads_back_with_extras :
    let fragment : Entries :=
      [("theme", .string "dark"), ("hue", .bool true),
        ("sequence", .object [("width", .number (.whole 200)), ("mystery", .null)])]
    let settings := (Settings.standard.applyInit fragment).1
    settings.Reached ∧ ofJson? settings.toJson = some settings ∧
      ∃ entries, settings.toJson = .object entries ∧
        Settings.standard.applyInit entries = (settings, none) := by
  intro fragment settings
  have hsequence : Json.Valid (.object [("width", .number (.whole 200)), ("mystery", .null)]) := by
    refine .object fun entry hentry => ?_
    rcases List.mem_cons.mp hentry with rfl | hentry
    · exact .number ⟨by decide, by decide⟩
    · rw [List.mem_singleton.mp hentry]
      exact .null
  have hvalid : ∀ entry ∈ fragment, entry.2.Valid := by
    intro entry hentry
    rcases List.mem_cons.mp hentry with rfl | hentry
    · exact .string "dark"
    · rcases List.mem_cons.mp hentry with rfl | hentry
      · exact .bool true
      · rw [List.mem_singleton.mp hentry]
        exact hsequence
  have hreached : settings.Reached := .init .standard hvalid (Prod.ext rfl rfl)
  exact ⟨hreached, hreached.reads_back⟩

end Settings

end SequenceChart
