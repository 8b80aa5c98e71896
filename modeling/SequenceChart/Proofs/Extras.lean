import SequenceChart.Proofs.Fields
import SequenceChart.Settings.Exchange
import SequenceChart.Source.Fragment

/-!
# What is kept without a setting

Entries are kept as they are only if no setting has their name. Each layer keeps to this, also one
that is refused in the end, so that settings which begin standard never keep what they could know.
-/

namespace SequenceChart

/-- A key outside the `sequence` part that some setting is named after, or that part itself. -/
def isKnownKey (key : String) : Bool :=
  isSettingsKey key || isSequenceKey key

/-- The entries give each key once, and none that is known. -/
structure Entries.Unknown (known : String → Bool) (entries : Entries) : Prop where
  nodup : entries.keys.Nodup
  unknown : ∀ key ∈ entries.keys, known key = false

theorem Entries.Unknown.nil (known : String → Bool) : Entries.Unknown known [] :=
  ⟨List.nodup_nil, fun _ hmem => (List.not_mem_nil hmem).elim⟩

theorem Entries.Unknown.insert {known : String → Bool} {entries : Entries}
    (hunknown : entries.Unknown known) {key : String} (hkey : known key = false) (value : Json) :
    (entries.insert key value).Unknown known where
  nodup := nodup_keys_insert hunknown.nodup key value
  unknown other hother := by
    rcases mem_keys_insert.mp hother with rfl | hearlier
    · exact hkey
    · exact hunknown.unknown other hearlier

/-- The first of the entries that are to be kept comes after those that are kept already. -/
theorem Entries.Unknown.append_cons {known : String → Bool} {kept rest : Entries}
    {entry : String × Json} (hunknown : Entries.Unknown known (kept ++ entry :: rest)) :
    known entry.1 = false ∧ kept.insert entry.1 entry.2 = kept ++ [entry] := by
  have hnodup := hunknown.nodup
  have hkeys : Entries.keys (kept ++ entry :: rest) = kept.keys ++ entry.1 :: Entries.keys rest :=
    List.map_append
  rw [hkeys] at hnodup
  have hnew : entry.1 ∉ kept.keys := fun hmem =>
    (List.nodup_append.mp hnodup).2.2 entry.1 hmem entry.1 List.mem_cons_self rfl
  refine ⟨hunknown.unknown entry.1 ?_, insert_of_notMem hnew entry.2⟩
  rw [hkeys]
  exact List.mem_append_right _ List.mem_cons_self

/-- No known key is among the entries that are kept without a setting. -/
structure Settings.Tidy (settings : Settings Float) : Prop where
  extra : settings.extra.Unknown isKnownKey
  sequence : settings.sequence.extra.Unknown isSequenceKey

theorem Settings.tidy_standard : Settings.standard.Tidy :=
  ⟨.nil _, .nil _⟩

namespace SequenceSettings

variable {settings changed : SequenceSettings Float}

theorem assign?_eq_some {key : String} {value : Json}
    (hassign : settings.assign? key value = .ok (some changed)) :
    ∃ known, SequenceKey.ofName? key = some known ∧ settings.set? known value = some changed := by
  unfold assign? at hassign
  split at hassign
  · cases hassign
  · rename_i known hkey
    split at hassign
    · rename_i hset
      obtain rfl := Option.some.inj (Except.ok.inj hassign)
      exact ⟨known, hkey, hset⟩
    · cases hassign

theorem extra_assign? {key : String} {value : Json}
    (hassign : settings.assign? key value = .ok (some changed)) :
    changed.extra = settings.extra := by
  obtain ⟨known, -, hset⟩ := assign?_eq_some hassign
  exact extra_set? hset

theorem assign?_eq_none {key : String} {value : Json}
    (hassign : settings.assign? key value = .ok none) : SequenceKey.ofName? key = none := by
  unfold assign? at hassign
  split at hassign
  · assumption
  · split at hassign <;> cases hassign

theorem isSequenceKey_of_assign? {key : String} {value : Json}
    (hassign : settings.assign? key value = .ok none) : isSequenceKey key = false := by
  rw [isSequenceKey, assign?_eq_none hassign]
  rfl

theorem unknown_layEntry (hunknown : settings.extra.Unknown isSequenceKey)
    (entry : String × Json) : (settings.layEntry entry).1.extra.Unknown isSequenceKey := by
  unfold layEntry
  split
  · rename_i hassign
    rw [extra_assign? hassign]
    exact hunknown
  · rename_i hassign
    exact hunknown.insert (isSequenceKey_of_assign? hassign) entry.2
  · exact hunknown

theorem unknown_layEntries (hunknown : settings.extra.Unknown isSequenceKey)
    (entries : Entries) : (settings.layEntries entries).1.extra.Unknown isSequenceKey :=
  runSteps_preserves (fun settings : SequenceSettings Float => settings.extra.Unknown isSequenceKey)
    (fun _ entry hunknown => unknown_layEntry hunknown entry) hunknown entries

theorem unknown_ofJson? {part : Json} (hread : ofJson? part = some settings) :
    settings.extra.Unknown isSequenceKey := by
  obtain ⟨entries, rfl, hentries⟩ := ofJson?_eq_some hread
  obtain ⟨-, hlay⟩ := ofEntries?_eq_some_iff_layEntries.mp hentries
  have hunknown : (standard.layEntries entries).1.extra.Unknown isSequenceKey :=
    unknown_layEntries (.nil _) entries
  rw [hlay] at hunknown
  exact hunknown

end SequenceSettings

namespace Settings

variable {settings changed : Settings Float}

theorem extras_set? {key : GeneralKey} {value : Json}
    (hset : settings.set? key value = some changed) :
    changed.extra = settings.extra ∧ changed.sequence = settings.sequence := by
  cases key
  all_goals
    obtain ⟨value, -, rfl⟩ := Option.map_eq_some_iff.mp hset
    exact ⟨rfl, rfl⟩

theorem Tidy.set? (htidy : settings.Tidy) {key : GeneralKey} {value : Json}
    (hset : settings.set? key value = some changed) : changed.Tidy := by
  obtain ⟨hextra, hsequence⟩ := extras_set? hset
  exact ⟨hextra ▸ htidy.extra, hsequence ▸ htidy.sequence⟩

theorem Tidy.layGeneralEntry (htidy : settings.Tidy) {key : String} (hkey : key ≠ sequencePart)
    (value : Json) : (settings.layGeneralEntry key value).1.Tidy := by
  unfold Settings.layGeneralEntry
  split
  · split
    · rename_i hset
      exact htidy.set? hset
    · exact htidy
  · rename_i hgeneral
    split
    · rename_i hassign
      exact ⟨htidy.extra, SequenceSettings.extra_assign? hassign ▸ htidy.sequence⟩
    · rename_i hassign
      have hknown : isKnownKey key = false := by
        rw [isKnownKey, SequenceSettings.isSequenceKey_of_assign? hassign, isSettingsKey, hgeneral]
        simpa using hkey
      exact ⟨htidy.extra.insert hknown value, htidy.sequence⟩
    · exact htidy

theorem Tidy.layInitEntry (htidy : settings.Tidy) (entry : String × Json) :
    (settings.layInitEntry entry).1.Tidy := by
  unfold Settings.layInitEntry
  split
  · split
    · rename_i hread
      exact ⟨htidy.extra, SequenceSettings.unknown_ofJson? hread⟩
    · exact htidy
  · rename_i hpart
    exact htidy.layGeneralEntry hpart entry.2

theorem Tidy.layConfigEntry (htidy : settings.Tidy) (entry : String × Json) :
    (settings.layConfigEntry entry).1.Tidy := by
  unfold Settings.layConfigEntry
  split
  · split
    · exact ⟨htidy.extra, SequenceSettings.unknown_layEntries htidy.sequence _⟩
    · exact htidy
  · rename_i hpart
    exact htidy.layGeneralEntry hpart entry.2

theorem Tidy.applyInit (htidy : settings.Tidy) (fragment : Entries) :
    (settings.applyInit fragment).1.Tidy :=
  runSteps_preserves Tidy (fun _ entry htidy => htidy.layInitEntry entry) htidy fragment

theorem Tidy.applyConfig (htidy : settings.Tidy) (fragment : Entries) :
    (settings.applyConfig fragment).1.Tidy :=
  runSteps_preserves Tidy (fun _ entry htidy => htidy.layConfigEntry entry) htidy fragment

theorem Tidy.applyFragments (htidy : settings.Tidy) (fragments : List Fragment) :
    (settings.applyFragments fragments).1.Tidy := by
  refine runSteps_preserves Tidy (fun settings fragment htidy => ?_) htidy fragments
  unfold applyFragment
  split
  · exact htidy.applyInit fragment.entries
  · exact htidy.applyConfig fragment.entries

end Settings

end SequenceChart
