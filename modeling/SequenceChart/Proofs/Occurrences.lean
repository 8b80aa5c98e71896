import SequenceChart.Text.Search

/-!
# Occurrences

A cut is made at the first occurrence of its mark. No occurrence starts before the cut, also none
that reaches into the mark.
-/

namespace SequenceChart

variable {mark text before after : List Char}

theorem not_infix_of_cutAt? (hmark : mark ≠ []) (hcut : cutAt? mark text = some (before, after)) :
    ¬mark <:+: before ++ mark.dropLast := by
  induction text generalizing before with
  | nil =>
      rw [cutAt?, if_neg (by simpa using hmark)] at hcut
      cases hcut
  | cons char rest ih =>
      rw [cutAt?] at hcut
      by_cases hstarts : mark.isPrefixOf (char :: rest) = true
      · rw [if_pos hstarts] at hcut
        obtain ⟨rfl, -⟩ := Prod.mk.inj (Option.some.inj hcut)
        intro hinfix
        have hlength := hinfix.length_le
        have hpositive := List.length_pos_iff.mpr hmark
        rw [List.nil_append, List.length_dropLast] at hlength
        omega
      · rw [if_neg hstarts] at hcut
        obtain ⟨⟨first, last⟩, hfound, heq⟩ := Option.map_eq_some_iff.mp hcut
        obtain ⟨rfl, rfl⟩ := Prod.mk.inj heq
        rw [List.cons_append, List.infix_cons_iff, not_or]
        refine ⟨?_, ih hfound⟩
        intro hprefix
        apply hstarts
        rw [List.isPrefixOf_iff_prefix, eq_of_cutAt?_eq_some hfound]
        have hrest : first ++ mark.dropLast <+: first ++ mark ++ last :=
          ((List.prefix_append_right_inj first).mpr (List.dropLast_prefix mark)).trans
            (List.prefix_append _ _)
        exact hprefix.trans (List.cons_prefix_cons.mpr ⟨rfl, hrest⟩)

theorem not_infix_of_cutAt?_eq_none (hmark : mark ≠ []) (hcut : cutAt? mark text = none) :
    ¬mark <:+: text := by
  induction text with
  | nil => rwa [List.infix_nil]
  | cons char rest ih =>
      rw [cutAt?] at hcut
      by_cases hstarts : mark.isPrefixOf (char :: rest) = true
      · rw [if_pos hstarts] at hcut
        cases hcut
      · rw [if_neg hstarts] at hcut
        rw [List.infix_cons_iff, not_or, ← List.isPrefixOf_iff_prefix]
        exact ⟨hstarts, ih (Option.map_eq_none_iff.mp hcut)⟩

theorem cutAt?_cons (mark char : Char) (text : List Char) :
    cutAt? [mark] (char :: text) = if mark = char then some ([], text)
      else (cutAt? [mark] text).map fun (before, after) => (char :: before, after) := by
  by_cases hchar : mark = char
  · subst hchar
    simp [cutAt?]
  · simp [cutAt?, hchar]

theorem cutAt?_append {mark : Char} (hbefore : mark ∉ before) (after : List Char) :
    cutAt? [mark] (before ++ mark :: after) = some (before, after) := by
  induction before with
  | nil => rw [List.nil_append, cutAt?_cons, if_pos rfl]
  | cons char before ih =>
      simp only [List.mem_cons, not_or] at hbefore
      rw [List.cons_append, cutAt?_cons, if_neg hbefore.1, ih hbefore.2, Option.map_some]

theorem not_mem_of_cutAt? {mark : Char} (hcut : cutAt? [mark] text = some (before, after)) :
    mark ∉ before := by
  intro hmem
  apply not_infix_of_cutAt? (List.cons_ne_nil _ _) hcut
  obtain ⟨first, last, rfl⟩ := List.append_of_mem hmem
  exact ⟨first, last, by simp⟩

theorem cutAt?_eq_none_iff {mark : Char} : cutAt? [mark] text = none ↔ mark ∉ text := by
  constructor
  · intro hcut hmem
    obtain ⟨before, after, rfl, hbefore⟩ := List.eq_append_cons_of_mem hmem
    rw [cutAt?_append hbefore] at hcut
    cases hcut
  · intro hmem
    cases hcut : cutAt? [mark] text with
    | none => rfl
    | some found =>
        have htext := eq_of_cutAt?_eq_some hcut
        exact absurd (by rw [htext]; simp) hmem

end SequenceChart
