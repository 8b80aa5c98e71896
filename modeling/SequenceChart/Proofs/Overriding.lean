import SequenceChart.Proofs.Reordering

/-!
# Sequence settings outside their part

An `init` fragment may name a sequence setting outside the `sequence` part. Such an entry is in
effect unless the part stands behind it: the part replaces the whole section, and with it what the
entry had set. Nothing else about a fragment depends on the order of its entries, if no setting is
named in both places.
-/

namespace SequenceChart

namespace Entries

/-- The entry stands before a `sequence` part. -/
def ReplacedLater (entries : Entries) (entry : String × Json) : Prop :=
  ∃ before behind, entries = before ++ entry :: behind ∧ sequencePart ∈ keys behind

/-- No sequence setting is named both outside the `sequence` part and inside. -/
def NamesApart (entries : Entries) : Prop :=
  ∀ flat ∈ entries, ∀ part ∈ entries, part.1 = sequencePart →
    ∀ key, Slot.ofName flat.1 = .sequence key → key.name ∉ part.2.entries.keys

theorem NamesApart.of_perm {entries others : Entries} (hapart : entries.NamesApart)
    (hperm : entries.Perm others) : others.NamesApart := by
  intro flat hflat part hpart
  exact hapart flat (hperm.mem_iff.mpr hflat) part (hperm.mem_iff.mpr hpart)

/-- Where keys are distinct, an entry shares its key with no other entry. -/
theorem key_ne_of_mem {before behind : Entries} {entry other : String × Json}
    (hnodup : (keys (before ++ entry :: behind)).Nodup) (hother : other ∈ behind) :
    other.1 ≠ entry.1 := by
  rw [keys_append, keys_cons] at hnodup
  have hnew := (List.nodup_cons.mp (List.nodup_append.mp hnodup).2.1).1
  intro hsame
  rw [← hsame] at hnew
  exact hnew (List.mem_map_of_mem hother)

end Entries

theorem Slot.name_eq_of_ofName {name other : String} (hslot : ofName name = ofName other) :
    name = other := by
  have hnames := congrArg Slot.name hslot
  rwa [name_ofName, name_ofName] at hnames

theorem Slot.ne_sequencePart_of_ofName {name : String} {key : SequenceKey}
    (hname : ofName name = .sequence key) : name ≠ sequencePart := by
  rintro rfl
  exact nomatch hname

theorem isSome_lastAssigned?_iff {assigned : List Assignment} {slot : Slot} :
    (lastAssigned? assigned slot).isSome ↔
      ∃ assignment ∈ assigned, (assignment.sets? slot).isSome := by
  rw [lastAssigned?, List.getLast?_isSome, ne_eq, List.filterMap_eq_nil_iff]
  simp [Option.ne_none_iff_isSome]

namespace FragmentKind

variable {kind : FragmentKind} {entries before behind : Entries} {entry : String × Json}
  {slot : Slot}

theorem lastAssigned?_of_not_concerns (hnone : ∀ entry ∈ entries, ¬kind.Concerns entry slot) :
    lastAssigned? (Fragment.assignments { kind, entries }) slot = none := by
  rw [Option.eq_none_iff_forall_ne_some]
  intro value hlast
  obtain ⟨entry, hentry, hconcerns⟩ := exists_concerns hlast
  exact hnone entry hentry hconcerns

/-- The last entry that concerns a slot tells what the fragment assigns to it. -/
theorem lastAssigned?_append_cons (hentry : kind.Concerns entry slot)
    (hbehind : ∀ other ∈ behind, ¬kind.Concerns other slot) :
    lastAssigned? (Fragment.assignments { kind, entries := before ++ entry :: behind }) slot =
      lastAssigned? (kind.assignments entry) slot := by
  have hnone : lastAssigned? (behind.flatMap kind.assignments) slot = none :=
    lastAssigned?_of_not_concerns hbehind
  obtain ⟨value, hvalue⟩ := Option.isSome_iff_exists.mp (isSome_lastAssigned?_iff.mpr hentry)
  rw [Fragment.assignments]
  simp only [List.flatMap_append, List.flatMap_cons, lastAssigned?_append]
  rw [hnone, hvalue]
  rfl

theorem assignments_flat (kind : FragmentKind) {flat : String × Json} {key : SequenceKey}
    (hname : Slot.ofName flat.1 = .sequence key) :
    kind.assignments flat = [.put (.sequence key) flat.2] := by
  unfold assignments
  rw [if_neg (Slot.ne_sequencePart_of_ofName hname), Assignment.ofGeneralEntry_eq_put, hname]

theorem concerns_flat (kind : FragmentKind) {flat : String × Json} {key : SequenceKey}
    (hname : Slot.ofName flat.1 = .sequence key) (hread : (key.read? flat.2).isSome) :
    kind.Concerns flat (.sequence key) ∧
      lastAssigned? (kind.assignments flat) (.sequence key) = key.read? flat.2 := by
  have hsets : (Assignment.put (.sequence key) flat.2).sets? (.sequence key) = key.read? flat.2 :=
    if_pos rfl
  obtain ⟨value, hvalue⟩ := Option.isSome_iff_exists.mp hread
  unfold Concerns
  rw [kind.assignments_flat hname]
  constructor
  · refine ⟨.put (.sequence key) flat.2, List.mem_singleton_self _, ?_⟩
    rw [hsets]
    exact hread
  · rw [lastAssigned?, List.filterMap_cons, hsets, hvalue]
    rfl

/-- A whole part makes the settings standard that it does not name. -/
theorem concerns_part {part : String × Json} {key : SequenceKey} (hpart : part.1 = sequencePart)
    (hkey : key.name ∉ part.2.entries.keys) :
    init.Concerns part (.sequence key) ∧
      lastAssigned? (init.assignments part) (.sequence key) =
        some (SequenceSettings.standard.value key) := by
  have hassigned : init.assignments part =
      .standardSequence :: part.2.entries.map .ofPartEntry := by
    rw [assignments, if_pos hpart]
  have hinside : (part.2.entries.map Assignment.ofPartEntry).filterMap
      (·.sets? (.sequence key)) = [] := by
    rw [List.filterMap_eq_nil_iff]
    intro assignment hmem
    obtain ⟨inner, hinner, rfl⟩ := List.mem_map.mp hmem
    rw [← Option.not_isSome_iff_eq_none]
    intro hsets
    unfold Assignment.ofPartEntry at hsets
    split at hsets
    · rename_i other hother
      obtain rfl := Slot.sequence.inj (Assignment.slot_of_sets? hsets)
      rw [SequenceKey.name_of_ofName? hother] at hkey
      exact hkey (List.mem_map_of_mem hinner)
    · exact nomatch Assignment.slot_of_sets? hsets
  constructor
  · refine ⟨.standardSequence, ?_, rfl⟩
    rw [hassigned]
    exact List.mem_cons_self
  · rw [hassigned, lastAssigned?, List.filterMap_cons, hinside]
    rfl

end FragmentKind

namespace Settings

variable {settings final other : Settings Float} {entries others : Entries}

theorem follows_applyInit (happly : settings.applyInit entries = (final, none)) :
    settings.Follows (Fragment.assignments { kind := .init, entries }) final :=
  @follows_applyFragment settings final { kind := .init, entries } happly

theorem applyInit_eq_none_iff : (settings.applyInit entries).2 = none ↔
    ∀ entry ∈ entries, (layFragmentEntry .init settings entry).2 = none :=
  @applyFragment_eq_none_iff settings .init entries

/-- A `sequence` part that comes later makes a setting standard that it does not name. -/
theorem value_replaced (hnodup : entries.keys.Nodup) (hapart : entries.NamesApart)
    (happly : settings.applyInit entries = (final, none)) {flat : String × Json}
    (hflat : flat ∈ entries) {key : SequenceKey} (hname : Slot.ofName flat.1 = .sequence key)
    (hlater : entries.ReplacedLater flat) :
    final.value (.sequence key) = SequenceSettings.standard.value key := by
  obtain ⟨before, behind, hentries, hbehind⟩ := hlater
  obtain ⟨part, hpart, hpartKey⟩ := List.mem_map.mp hbehind
  obtain ⟨between, after, rfl⟩ := List.append_of_mem hpart
  have hsplit : entries = (before ++ flat :: between) ++ part :: after := by
    rw [hentries, List.append_assoc, List.cons_append]
  have hinside : part ∈ entries := by
    rw [hsplit]
    exact List.mem_append_right _ List.mem_cons_self
  obtain ⟨hconcerns, hlast⟩ :=
    FragmentKind.concerns_part hpartKey (hapart flat hflat part hinside hpartKey key hname)
  -- What comes after the part has neither its key nor that of the flat entry.
  have hafter : ∀ entry ∈ after, ¬FragmentKind.init.Concerns entry (.sequence key) := by
    intro entry hentry hentryConcerns
    have hnotPart : entry.1 ≠ sequencePart := by
      rw [← hpartKey]
      exact Entries.key_ne_of_mem (hsplit ▸ hnodup) hentry
    have hnotFlat : entry.1 ≠ flat.1 := by
      rw [hentries] at hnodup
      exact Entries.key_ne_of_mem hnodup
        (List.mem_append_right _ (List.mem_cons_of_mem _ hentry))
    have hslot := hentryConcerns.eq_ofName hnotPart
    exact hnotFlat (Slot.name_eq_of_ofName (hslot.symm.trans hname.symm))
  rw [(follows_applyInit happly).value, hsplit,
    FragmentKind.lastAssigned?_append_cons hconcerns hafter, hlast]
  rfl

theorem value_lasting (hnodup : entries.keys.Nodup)
    (happly : settings.applyInit entries = (final, none)) {flat : String × Json}
    (hflat : flat ∈ entries) {key : SequenceKey} (hname : Slot.ofName flat.1 = .sequence key)
    (hlasting : ¬entries.ReplacedLater flat) :
    key.read? flat.2 = some (final.value (.sequence key)) := by
  have hfollows := follows_applyInit happly
  have hreadable : (key.read? flat.2).isSome := by
    apply hfollows.readable (.put (.sequence key) flat.2)
    refine List.mem_flatMap.mpr ⟨flat, hflat, ?_⟩
    rw [FragmentKind.init.assignments_flat hname]
    exact List.mem_singleton_self _
  obtain ⟨hconcerns, hlast⟩ := FragmentKind.init.concerns_flat hname hreadable
  obtain ⟨value, hread⟩ := Option.isSome_iff_exists.mp hreadable
  obtain ⟨before, behind, rfl⟩ := List.append_of_mem hflat
  have hbehind : ∀ entry ∈ behind, ¬FragmentKind.init.Concerns entry (.sequence key) := by
    intro entry hentry hentryConcerns
    have hnotPart : entry.1 ≠ sequencePart := by
      intro hpart
      exact hlasting ⟨before, behind, rfl, hpart ▸ List.mem_map_of_mem hentry⟩
    have hslot := hentryConcerns.eq_ofName hnotPart
    exact Entries.key_ne_of_mem hnodup hentry
      (Slot.name_eq_of_ofName (hslot.symm.trans hname.symm))
  rw [hfollows.value, FragmentKind.lastAssigned?_append_cons hconcerns hbehind, hlast, hread]
  rfl

/-- A slot that only one entry concerns does not depend on the order. -/
theorem value_alone (hnodup : entries.keys.Nodup)
    (happly : settings.applyInit entries = (final, none)) {entry : String × Json}
    (hentry : entry ∈ entries) {slot : Slot} (hconcerns : FragmentKind.init.Concerns entry slot)
    (halone : ∀ other ∈ entries, FragmentKind.init.Concerns other slot → other.1 = entry.1) :
    final.value slot =
      (lastAssigned? (FragmentKind.init.assignments entry) slot).getD (settings.value slot) := by
  obtain ⟨before, behind, rfl⟩ := List.append_of_mem hentry
  rw [(follows_applyInit happly).value, FragmentKind.lastAssigned?_append_cons hconcerns]
  intro other hother hotherConcerns
  apply Entries.key_ne_of_mem hnodup hother
  exact halone other (List.mem_append_right _ (List.mem_cons_of_mem _ hother)) hotherConcerns

/-- Only a slot that is named outside the `sequence` part can hold something else in another
order. -/
theorem exists_flat_of_ne (hnodup : entries.keys.Nodup) (hperm : entries.Perm others)
    (hfinal : settings.applyInit entries = (final, none))
    (hother : settings.applyInit others = (other, none)) {slot : Slot}
    (hdiffer : final.value slot ≠ other.value slot) :
    ∃ flat ∈ entries, ∃ key, Slot.ofName flat.1 = .sequence key ∧ slot = .sequence key := by
  by_contra hnone
  apply hdiffer
  by_cases hsome : ∃ entry ∈ entries, FragmentKind.init.Concerns entry slot
  · obtain ⟨entry, hentry, hconcerns⟩ := hsome
    have halone : ∀ rival ∈ entries, FragmentKind.init.Concerns rival slot →
        rival.1 = entry.1 := by
      intro rival hrival hrivalConcerns
      by_contra hkeys
      obtain ⟨key, hkey, hcompetes⟩ := hrivalConcerns.competes hconcerns hkeys
      rcases hcompetes with ⟨-, hname⟩ | ⟨-, hname⟩
      · exact hnone ⟨entry, hentry, key, hname, hkey⟩
      · exact hnone ⟨rival, hrival, key, hname, hkey⟩
    have hothers : others.keys.Nodup := (hperm.map Prod.fst).nodup_iff.mp hnodup
    rw [value_alone hnodup hfinal hentry hconcerns halone]
    rw [value_alone hothers hother (hperm.mem_iff.mp hentry) hconcerns]
    intro rival hrival
    exact halone rival (hperm.mem_iff.mpr hrival)
  · have hnothing : ∀ entry ∈ entries, ¬FragmentKind.init.Concerns entry slot :=
      fun entry hentry hconcerns => hsome ⟨entry, hentry, hconcerns⟩
    rw [(follows_applyInit hfinal).value, (follows_applyInit hother).value,
      FragmentKind.lastAssigned?_of_not_concerns hnothing,
      FragmentKind.lastAssigned?_of_not_concerns fun entry hentry =>
        hnothing entry (hperm.mem_iff.mpr hentry)]

/-- **The order of the entries.** A fragment that names no sequence setting in both places applies
as `init` in any order of its entries if it does in one. A sequence setting that is named outside
the `sequence` part is in effect unless the part comes later; then it is standard. So a slot holds
something else in another order only if it is such a setting, and the part comes later in just one
of the two. -/
theorem applyInit_perm (hnodup : entries.keys.Nodup) (hperm : entries.Perm others)
    (hapart : entries.NamesApart) (settings : Settings Float) :
    ((settings.applyInit entries).2 = none ↔ (settings.applyInit others).2 = none) ∧
      ∀ final other, settings.applyInit entries = (final, none) →
        settings.applyInit others = (other, none) →
        (∀ flat ∈ entries, ∀ key, Slot.ofName flat.1 = .sequence key →
          (entries.ReplacedLater flat →
            final.value (.sequence key) = SequenceSettings.standard.value key) ∧
          (¬entries.ReplacedLater flat →
            key.read? flat.2 = some (final.value (.sequence key)))) ∧
        ∀ slot, final.value slot ≠ other.value slot →
          ∃ flat ∈ entries, ∃ key, Slot.ofName flat.1 = .sequence key ∧ slot = .sequence key ∧
            (entries.ReplacedLater flat ↔ ¬others.ReplacedLater flat) := by
  constructor
  · rw [applyInit_eq_none_iff, applyInit_eq_none_iff]
    exact forall_congr' fun _ => imp_congr_left hperm.mem_iff
  intro final other hfinal hother
  have hreplaced {flat : String × Json} (hflat : flat ∈ entries) {key : SequenceKey}
      (hname : Slot.ofName flat.1 = .sequence key) :=
    value_replaced hnodup hapart hfinal hflat hname
  have hlasting {flat : String × Json} (hflat : flat ∈ entries) {key : SequenceKey}
      (hname : Slot.ofName flat.1 = .sequence key) := value_lasting hnodup hfinal hflat hname
  constructor
  · intro flat hflat key hname
    exact ⟨hreplaced hflat hname, hlasting hflat hname⟩
  intro slot hdiffer
  obtain ⟨flat, hflat, key, hname, rfl⟩ := exists_flat_of_ne hnodup hperm hfinal hother hdiffer
  have hnodupOthers : others.keys.Nodup := (hperm.map Prod.fst).nodup_iff.mp hnodup
  have hflatOthers : flat ∈ others := hperm.mem_iff.mp hflat
  refine ⟨flat, hflat, key, hname, rfl, ?_⟩
  constructor
  · intro hlater hlaterOther
    have hstandard := value_replaced hnodupOthers (hapart.of_perm hperm) hother hflatOthers hname
      hlaterOther
    exact hdiffer ((hreplaced hflat hname hlater).trans hstandard.symm)
  · intro hlaterOther
    by_contra hlater
    have hread := value_lasting hnodupOthers hother hflatOthers hname hlaterOther
    exact hdiffer (Option.some.inj ((hlasting hflat hname hlater).symm.trans hread))

/-- A payload that gives a sequence setting in front of the `sequence` part. -/
def unmirrored : Entries :=
  [("mirrorActors", .bool false), ("sequence", .object [])]

theorem namesApart_unmirrored : unmirrored.NamesApart := by
  intro flat hflat part hpart hpartKey key hname
  have hempty : part.2.entries = [] := by
    rcases List.mem_cons.mp hpart with rfl | hpart
    · exact absurd hpartKey (by decide)
    · rw [List.mem_singleton.mp hpart]
      rfl
  rw [hempty]
  exact List.not_mem_nil

theorem applyInit_unmirrored_reverse :
    ∃ flat ∈ unmirrored, ∃ key, Slot.ofName flat.1 = .sequence key ∧
      Slot.sequence .mirrorActors = .sequence key ∧
      (unmirrored.ReplacedLater flat ↔ ¬Entries.ReplacedLater unmirrored.reverse flat) := by
  have hdistinct : unmirrored.keys.Nodup := by
    decide
  have hperm : unmirrored.Perm unmirrored.reverse := (List.reverse_perm unmirrored).symm
  have hfinal : standard.applyInit unmirrored = ((standard.applyInit unmirrored).1, none) :=
    Prod.ext rfl rfl
  have hother : standard.applyInit unmirrored.reverse =
      ((standard.applyInit unmirrored.reverse).1, none) := Prod.ext rfl rfl
  exact ((applyInit_perm hdistinct hperm namesApart_unmirrored standard).2 _ _ hfinal hother).2
    (.sequence .mirrorActors) Bool.noConfusion

/-- The part in the second place makes the setting standard that the entry before it has changed. -/
theorem applyInit_order_matters :
    ¬∀ (settings : Settings Float) (entries others : Entries), entries.keys.Nodup →
      entries.Perm others → entries.NamesApart → ∀ final other,
        settings.applyInit entries = (final, none) → settings.applyInit others = (other, none) →
        ∀ slot, final.value slot = other.value slot := by
  intro hsame
  have hvalue := hsame standard unmirrored unmirrored.reverse (by decide)
    (List.reverse_perm unmirrored).symm namesApart_unmirrored _ _ (Prod.ext rfl rfl)
    (Prod.ext rfl rfl) (.sequence .mirrorActors)
  exact Bool.noConfusion hvalue

end Settings

end SequenceChart
