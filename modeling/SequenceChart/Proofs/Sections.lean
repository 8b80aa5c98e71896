import SequenceChart.Proofs.Extras
import SequenceChart.Proofs.Parts

/-!
# Replacing the sequence section and merging into it

An `init` fragment replaces the sequence section by its `sequence` part, a `config` fragment merges
the part into the section. On a standard section both come to the same, since what is merged into it
is all that it holds beyond the standard. This needs a section that is still standard when the part
is reached, so no entry before the part may name a setting of the section.
-/

namespace SequenceChart

/-- The key names a setting of the sequence section, and none outside of it. -/
def IsFlatKey (key : String) : Prop :=
  isSequenceKey key = true ∧ GeneralKey.ofName? key = none

instance : DecidablePred IsFlatKey :=
  fun key => inferInstanceAs (Decidable (isSequenceKey key = true ∧ GeneralKey.ofName? key = none))

namespace Settings

variable {settings next final : Settings Float} {fragment : Entries}

theorem sequence_layGeneralEntry (settings : Settings Float) {key : String}
    (hflat : ¬IsFlatKey key) (value : Json) :
    (settings.layGeneralEntry key value).1.sequence = settings.sequence := by
  unfold layGeneralEntry
  split
  · split
    · rename_i hset
      exact (extras_set? hset).2
    · rfl
  · rename_i hgeneral
    have hunknown : SequenceKey.ofName? key = none := by
      cases hknown : SequenceKey.ofName? key with
      | none => rfl
      | some known => exact absurd ⟨congrArg Option.isSome hknown, hgeneral⟩ hflat
    have hassign : settings.sequence.assign? key value = .ok none := by
      unfold SequenceSettings.assign?
      rw [hunknown]
    rw [hassign]

theorem layInitEntry_part_iff (hstandard : settings.sequence = .standard) {part : Json}
    (hdistinct : part.HasDistinctKeys) :
    settings.layInitEntry (sequencePart, part) = (next, none) ↔
      settings.layConfigEntry (sequencePart, part) = (next, none) := by
  unfold layInitEntry layConfigEntry
  rw [if_pos rfl, if_pos rfl, hstandard]
  cases part with
  | null | bool | number | string | array => exact iff_of_false nofun nofun
  | object entries =>
      have hknown : ((Entries.keys entries).filter isSequenceKey).Nodup := hdistinct.filter _
      dsimp only
      have hread (sequence : SequenceSettings Float) :
          SequenceSettings.ofJson? (.object entries) = some sequence ↔
            SequenceSettings.standard.layEntries entries = (sequence, none) :=
        SequenceSettings.ofEntries?_eq_some_iff_layEntries.trans (and_iff_right hknown)
      rcases hlay : SequenceSettings.standard.layEntries entries with ⟨sequence, _ | fault⟩
      · rw [(hread sequence).mpr hlay]
      · have hnone : SequenceSettings.ofJson? (.object entries) = none := by
          rw [Option.eq_none_iff_forall_ne_some]
          intro sequence hsome
          have hsucceeds := (hread sequence).mp hsome
          rw [hlay] at hsucceeds
          cases congrArg Prod.snd hsucceeds
        rw [hnone]
        exact iff_of_false nofun nofun

theorem applyInit_eq_applyConfig_of_notMem (hpart : sequencePart ∉ fragment.keys) :
    settings.applyInit fragment = settings.applyConfig fragment := by
  unfold applyInit applyConfig
  induction fragment generalizing settings with
  | nil => rfl
  | cons entry rest ih =>
      rw [Entries.keys_cons, List.mem_cons, not_or] at hpart
      have hstep : settings.layInitEntry entry = settings.layConfigEntry entry := by
        rw [layInitEntry, layConfigEntry, if_neg (Ne.symm hpart.1), if_neg (Ne.symm hpart.1)]
      rw [runSteps, runSteps, hstep]
      split
      · exact ih hpart.2
      · rfl

/-- **Replacing a standard section and merging into it.** If the sequence section is standard and no
setting of it is named outside the `sequence` part, a fragment succeeds as `init` with some settings
if and only if it succeeds as `config` with the same. -/
theorem applyInit_eq_iff_applyConfig (hstandard : settings.sequence = .standard)
    (hdistinct : (Json.object fragment).Everywhere Json.HasDistinctKeys)
    (hflat : ∀ key ∈ fragment.keys, ¬IsFlatKey key) :
    settings.applyInit fragment = (final, none) ↔
      settings.applyConfig fragment = (final, none) := by
  obtain ⟨hkeys, hparts⟩ := Json.everywhere_object_iff.mp hdistinct
  change (Entries.keys fragment).Nodup at hkeys
  clear hdistinct
  -- As long as the part is not reached, the section stays standard.
  induction fragment generalizing settings with
  | nil => exact Iff.rfl
  | cons entry rest ih =>
      obtain ⟨key, value⟩ := entry
      rw [Entries.keys_cons, List.nodup_cons] at hkeys
      rw [Entries.keys_cons, List.forall_mem_cons] at hflat
      rw [List.forall_mem_cons] at hparts
      rw [applyInit, applyConfig, runSteps_cons_eq_none_iff, runSteps_cons_eq_none_iff]
      by_cases hpart : key = sequencePart
      · subst hpart
        refine exists_congr fun next => and_congr ?_ ?_
        · exact layInitEntry_part_iff hstandard (hparts.1 value (.whole value))
        · exact iff_of_eq (congrArg (· = (final, none))
            (applyInit_eq_applyConfig_of_notMem hkeys.1))
      · rw [layInitEntry, layConfigEntry, if_neg hpart, if_neg hpart]
        refine exists_congr fun next => and_congr_right fun hlay => ?_
        apply ih
        · have hkept := settings.sequence_layGeneralEntry hflat.1 value
          rw [hlay] at hkept
          exact hkept.trans hstandard
        · exact hflat.2
        · exact hparts.2
        · exact hkeys.2

/-- Both keep what no setting is named after, and give the other fields their standard values. -/
theorem applyInit_eq_applyConfig_hue :
    let fragment : Entries :=
      [("theme", .string "dark"),
        ("sequence", .object [("hue", .null), ("mirrorActors", .bool false)]), ("wrap", .bool true)]
    ∃ final, standard.applyInit fragment = (final, none) ∧
      standard.applyConfig fragment = (final, none) ∧ final.sequence.mirrorActors = false ∧
        final.sequence.extra = [("hue", .null)] := by
  intro fragment
  have hdistinct : (Json.object fragment).Everywhere Json.HasDistinctKeys :=
    Json.distinctKeys_unify (.object fragment)
  have hflat : ∀ key ∈ fragment.keys, ¬IsFlatKey key := by
    decide
  have happly : standard.applyInit fragment = ((standard.applyInit fragment).1, none) :=
    Prod.ext rfl rfl
  exact ⟨_, happly, (applyInit_eq_iff_applyConfig rfl hdistinct hflat).mp happly, rfl, rfl⟩

end Settings

end SequenceChart
