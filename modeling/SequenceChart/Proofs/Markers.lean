import SequenceChart.Diagram.MarkedText
import SequenceChart.Proofs.Switches

/-!
# Markers of texts

A text asks for wrapped lines, or forbids them, by a marker at its start. No marker begins with
another, so a text starts with one marker at most, and it does not matter in which order they are
tried. What the text says is what stays when the blanks at its ends and the marker are taken off.
-/

namespace SequenceChart

/-- The text starts with a marker, after blanks, in letters of any case. -/
def Marks (raw : String) (wrap : Bool) : Prop :=
  ∃ marker before spelled rest, (marker, wrap) ∈ MarkedText.markers ∧
    raw.toList = before ++ spelled ++ rest ∧ (∀ char ∈ before, isBlank char = true) ∧
    Spells marker spelled

/-- The text stays when all blanks at the ends are taken off. -/
structure Trims (raw text : List Char) : Prop where
  between : ∃ before after, raw = before ++ text ++ after ∧
    (∀ char ∈ before, isBlank char = true) ∧ ∀ char ∈ after, isBlank char = true
  first : ∀ char, text.head? = some char → isBlank char = false
  last : ∀ char, text.getLast? = some char → isBlank char = false

/-- What a text says: it stays when the blanks at the ends are taken off, and the marker with the
blanks behind it if the text starts with one. -/
inductive Cleaned (raw : String) : String → Prop
  | marked {marker text : String} {wrap : Bool} {before spelled rest : List Char} :
      (marker, wrap) ∈ MarkedText.markers → raw.toList = before ++ spelled ++ rest →
      (∀ char ∈ before, isBlank char = true) → Spells marker spelled → Trims rest text.toList →
      Cleaned raw text
  | plain {text : String} :
      (∀ wrap, ¬Marks raw wrap) → Trims raw.toList text.toList → Cleaned raw text

theorem getLast?_trim {text : List Char} {char : Char} (hlast : (trim text).getLast? = some char) :
    isBlank char = false := by
  rw [← List.head?_reverse, trim, dropEndBlanks, List.reverse_reverse] at hlast
  exact @head?_dropBlanks (dropBlanks text).reverse char hlast

theorem trim_eq_self {text : List Char}
    (hfirst : ∀ char, text.head? = some char → isBlank char = false)
    (hlast : ∀ char, text.getLast? = some char → isBlank char = false) : trim text = text := by
  have hend : text.reverse.dropWhile isBlank = text.reverse := by
    apply dropBlanks_eq_self
    simpa only [List.head?_reverse] using hlast
  rw [trim, dropBlanks_eq_self hfirst, dropEndBlanks, hend, List.reverse_reverse]

theorem trims_iff {raw text : List Char} : Trims raw text ↔ text = trim raw := by
  constructor
  · rintro ⟨⟨before, after, rfl, hbefore, hafter⟩, hfirst, hlast⟩
    rw [trim_append_blanks hafter, trim_blanks_append hbefore, trim_eq_self hfirst hlast]
  · rintro rfl
    exact ⟨exists_trim raw, fun _ => head?_trim, fun _ => getLast?_trim⟩

/-- What comes before the first blank stays at the start when a text is trimmed. -/
theorem trim_append_of_no_blank {word : List Char} (hblank : ∀ char ∈ word, isBlank char = false)
    (hword : word ≠ []) (rest : List Char) :
    ∃ behind, trim (word ++ rest) = word ++ behind ∧ trim behind = trim rest := by
  obtain ⟨before, after, hrest, hbefore, hafter⟩ := exists_trim rest
  have htrim : trim word = word := by
    apply trim_eq_self
    · exact fun char hhead => hblank char (List.mem_of_head? hhead)
    · exact fun char hlast => hblank char (List.mem_of_getLast? hlast)
  rw [hrest, ← List.append_assoc, trim_append_blanks hafter, ← hrest]
  by_cases hnone : trim rest = []
  · refine ⟨[], ?_, hnone.symm⟩
    rw [hnone, List.append_nil, trim_append_blanks hbefore, htrim, List.append_nil]
  · refine ⟨before ++ trim rest, ?_, ?_⟩
    · rw [← List.append_assoc]
      exact trim_append_append htrim (trim_trim rest) hword hnone before
    · rw [trim_blanks_append hbefore, trim_trim]

namespace MarkedText

/-- No marker begins with another. -/
theorem markers_apart : ∀ left ∈ markers, ∀ right ∈ markers,
    left.1.toList.map Char.toLower <+: right.1.toList.map Char.toLower → left = right := by
  decide

theorem no_blank_in_markers : ∀ marked ∈ markers,
    ∀ char ∈ marked.1.toList.map Char.toLower, isBlank char = false := by
  -- Run as `all`, the check goes over the characters of the markers and not over all of `Char`.
  have hall : (markers.all fun marked =>
      (marked.1.toList.map Char.toLower).all fun char => !isBlank char) = true := by
    decide
  intro marked hmarked char hchar
  simpa using List.all_eq_true.mp (List.all_eq_true.mp hall marked hmarked) char hchar

theorem marker_ne_empty : ∀ marked ∈ markers, marked.1 ≠ "" := by
  decide

theorem not_isBlank_of_spells {marked : String × Bool} (hmarked : marked ∈ markers)
    {spelled : List Char} (hspells : Spells marked.1 spelled) :
    ∀ char ∈ spelled, isBlank char = false := by
  intro char hchar
  rw [Bool.eq_false_iff]
  intro hblank
  have hlower : char.toLower ∈ marked.1.toList.map Char.toLower := by
    rw [← hspells]
    exact List.mem_map_of_mem hchar
  rw [toLower_of_isBlank hblank] at hlower
  exact absurd hblank (by simp [no_blank_in_markers marked hmarked char hlower])

/-- A text starts with one marker at most. -/
theorem eq_of_spells {left right : String × Bool} (hleft : left ∈ markers)
    (hright : right ∈ markers) {text first second : List Char} (hfirst : first <+: text)
    (hsecond : second <+: text) (hspellsLeft : Spells left.1 first)
    (hspellsRight : Spells right.1 second) : left = right ∧ first = second := by
  have hsame : left = right := by
    rcases List.prefix_or_prefix_of_prefix hfirst hsecond with hpart | hpart
    · apply markers_apart left hleft right hright
      rw [← hspellsLeft, ← hspellsRight]
      exact hpart.map Char.toLower
    · apply Eq.symm
      apply markers_apart right hright left hleft
      rw [← hspellsLeft, ← hspellsRight]
      exact hpart.map Char.toLower
  refine ⟨hsame, ?_⟩
  have hlength : first.length = second.length := by
    rw [hspellsLeft.length_eq, hspellsRight.length_eq, hsame]
  rw [List.prefix_iff_eq_take.mp hfirst, List.prefix_iff_eq_take.mp hsecond, hlength]

theorem dropMarker?_eq_some {text rest : List Char} {wrap : Bool}
    (hdrop : dropMarker? text = some (wrap, rest)) :
    ∃ marker spelled, (marker, wrap) ∈ markers ∧ text = spelled ++ rest ∧
      Spells marker spelled := by
  obtain ⟨⟨marker, value⟩, hmarker, hfound⟩ := List.exists_of_findSome?_eq_some hdrop
  obtain ⟨behind, hbehind, heq⟩ := Option.map_eq_some_iff.mp hfound
  obtain ⟨rfl, rfl⟩ := Prod.mk.inj heq
  obtain ⟨spelled, htext, hspelled⟩ := dropWord?_eq_some_iff.mp hbehind
  exact ⟨marker, spelled, hmarker, htext, hspelled⟩

theorem dropMarker?_eq_none {text : List Char} (hdrop : dropMarker? text = none)
    {marked : String × Bool} (hmarked : marked ∈ markers) {spelled : List Char}
    (hspells : Spells marked.1 spelled) : ¬spelled <+: text := by
  rintro ⟨rest, rfl⟩
  have hnone := List.findSome?_eq_none_iff.mp hdrop marked hmarked
  rw [Option.map_eq_none_iff, dropWord?_append hspells] at hnone
  cases hnone

/-- The marker that a text starts with is found when the text is trimmed. -/
theorem dropMarker?_of_spells {marker : String} {wrap : Bool} (hmarker : (marker, wrap) ∈ markers)
    {raw before spelled rest : List Char} (hraw : raw = before ++ spelled ++ rest)
    (hbefore : ∀ char ∈ before, isBlank char = true) (hspells : Spells marker spelled) :
    ∃ behind, dropMarker? (trim raw) = some (wrap, behind) ∧ trim behind = trim rest := by
  obtain ⟨behind, htrim, hbehind⟩ := trim_append_of_no_blank
    (not_isBlank_of_spells hmarker hspells) (hspells.ne_nil (marker_ne_empty _ hmarker)) rest
  have htext : trim raw = spelled ++ behind := by
    rw [hraw, List.append_assoc, trim_blanks_append hbefore, htrim]
  refine ⟨behind, ?_, hbehind⟩
  cases hdrop : dropMarker? (trim raw) with
  | none => exact absurd ⟨behind, htext.symm⟩ (dropMarker?_eq_none hdrop hmarker hspells)
  | some found =>
      obtain ⟨other, left⟩ := found
      obtain ⟨another, spelt, hanother, hleft, hspelt⟩ := dropMarker?_eq_some hdrop
      obtain ⟨hsame, rfl⟩ := eq_of_spells hmarker hanother ⟨behind, htext.symm⟩
        ⟨left, hleft.symm⟩ hspells hspelt
      obtain ⟨-, rfl⟩ := Prod.mk.inj hsame
      rw [List.append_cancel_left (htext.symm.trans hleft)]

/-- A marker that is found stands behind blanks, and in front of what it leaves. -/
theorem exists_spells_of_dropMarker? {raw rest : List Char} {wrap : Bool}
    (hdrop : dropMarker? (trim raw) = some (wrap, rest)) :
    ∃ marker before spelled behind, (marker, wrap) ∈ markers ∧ raw = before ++ spelled ++ behind ∧
      (∀ char ∈ before, isBlank char = true) ∧ Spells marker spelled ∧
      trim behind = trim rest := by
  obtain ⟨marker, spelled, hmarker, htrim, hspells⟩ := dropMarker?_eq_some hdrop
  obtain ⟨before, after, hraw, hbefore, hafter⟩ := exists_trim raw
  refine ⟨marker, before, spelled, rest ++ after, hmarker, ?_, hbefore, hspells,
    trim_append_blanks hafter⟩
  rw [hraw, htrim]
  simp only [List.append_assoc]

theorem marks_iff {raw : String} {wrap : Bool} :
    Marks raw wrap ↔ ∃ rest, dropMarker? (trim raw.toList) = some (wrap, rest) := by
  constructor
  · rintro ⟨marker, before, spelled, rest, hmarker, hraw, hbefore, hspells⟩
    obtain ⟨behind, hdrop, -⟩ := dropMarker?_of_spells hmarker hraw hbefore hspells
    exact ⟨behind, hdrop⟩
  · rintro ⟨rest, hdrop⟩
    obtain ⟨marker, before, spelled, behind, hmarker, hraw, hbefore, hspells, -⟩ :=
      exists_spells_of_dropMarker? hdrop
    exact ⟨marker, before, spelled, behind, hmarker, hraw, hbefore, hspells⟩

theorem forall_not_marks_iff {raw : String} :
    (∀ wrap, ¬Marks raw wrap) ↔ dropMarker? (trim raw.toList) = none := by
  simp only [marks_iff, not_exists, Option.eq_none_iff_forall_ne_some, Prod.forall, ne_eq]

/-- A text is read with the marker that it starts with. -/
theorem wrap_read (raw : String) :
    (∃ wrap, (read raw).wrap = some wrap ∧ Marks raw wrap ∧
        ∀ other, Marks raw other → other = wrap) ∨
      (read raw).wrap = none ∧ ∀ wrap, ¬Marks raw wrap := by
  cases hdrop : dropMarker? (trim raw.toList) with
  | none => exact .inr ⟨by simp only [read, hdrop], forall_not_marks_iff.mpr hdrop⟩
  | some found =>
      obtain ⟨wrap, rest⟩ := found
      refine .inl ⟨wrap, by simp only [read, hdrop], marks_iff.mpr ⟨rest, hdrop⟩, ?_⟩
      intro other hmarks
      obtain ⟨behind, hbehind⟩ := marks_iff.mp hmarks
      exact (Prod.mk.inj (Option.some.inj (hbehind.symm.trans hdrop))).1

/-- A text is read as what it says, and as nothing else. -/
theorem cleaned_iff {raw text : String} : Cleaned raw text ↔ text = (read raw).text := by
  constructor
  · rintro (⟨hmarker, hraw, hbefore, hspells, htrims⟩ | ⟨hnone, htrims⟩)
    · obtain ⟨behind, hdrop, hbehind⟩ := dropMarker?_of_spells hmarker hraw hbefore hspells
      rw [← String.ofList_toList (s := text), trims_iff.mp htrims, ← hbehind]
      simp only [read, hdrop, trimmed]
    · rw [← String.ofList_toList (s := text), trims_iff.mp htrims]
      simp only [read, forall_not_marks_iff.mp hnone]
  · rintro rfl
    cases hdrop : dropMarker? (trim raw.toList) with
    | none =>
        apply Cleaned.plain (forall_not_marks_iff.mpr hdrop)
        rw [trims_iff]
        simp only [read, hdrop, String.toList_ofList]
    | some found =>
        obtain ⟨wrap, rest⟩ := found
        obtain ⟨marker, before, spelled, behind, hmarker, hraw, hbefore, hspells, hbehind⟩ :=
          exists_spells_of_dropMarker? hdrop
        apply Cleaned.marked hmarker hraw hbefore hspells
        rw [trims_iff, hbehind]
        simp only [read, hdrop, trimmed, String.toList_ofList]

end MarkedText

end SequenceChart
