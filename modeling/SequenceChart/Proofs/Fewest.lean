import Mathlib.Order.Bounds.Defs
import SequenceChart.Proofs.Filling

/-!
# The fewest lines

Where a run of words still fits when words are dropped from its ends, greedy filling takes the
fewest lines. A part that begins later needs no more lines than one that begins earlier; so a line
that ends as late as it can leaves no more to the others than any other line would.
-/

namespace SequenceChart

variable {fits : List Char → Bool} {word : List Char} {more rest later texts : List (List Char)}

/-- What is left of a fitting run fits when words are dropped from its ends. -/
def Shrinks (fits : List Char → Bool) : Prop :=
  ∀ first run last, run ≠ [] → (∀ word ∈ first ++ run ++ last, IsWord word) →
    fits (joinWords (first ++ run ++ last)) = true → fits (joinWords run) = true

/-- Some runs hold the words of the part in order, and each of them fits or has no second word. -/
structure LaidOut (fits : List Char → Bool) (part : List Char)
    (runs : List (List (List Char))) : Prop where
  flatten_eq : runs.flatten = words part
  ne_nil : runs ≠ []
  fitting : ∀ run ∈ runs, run.length ≤ 1 ∨ fits (joinWords run) = true

namespace Shrinks

theorem of_part
    (hparts : ∀ part whole, part <:+: whole → fits whole = true → fits part = true) :
    Shrinks fits :=
  fun first _ last hrun _ hfits => hparts _ _ (joinWords_part hrun first last) hfits

/-- A word takes at least the words that stand behind it on a fitting line. -/
theorem takes_of_fits (hshrinks : Shrinks fits) (hwords : ∀ text ∈ word :: more, IsWord text)
    (hfits : (word :: more).length ≤ 1 ∨ fits (joinWords (word :: more)) = true) :
    Takes fits [word] more := by
  rintro start ⟨tail, rfl⟩ hstart
  rcases hfits with hone | hfits
  · have hpos := List.length_pos_iff.mpr hstart
    simp only [List.length_cons, List.length_append] at hone
    omega
  · exact hshrinks [] (word :: start) tail (List.cons_ne_nil _ _) hwords hfits

/-- If a word can take some words, the first of them can take the others. -/
theorem takes_tail (hshrinks : Shrinks fits) {next : List Char}
    (hwords : ∀ text ∈ word :: next :: more, IsWord text)
    (htakes : Takes fits [word] (next :: more)) : Takes fits [next] more := by
  rintro start ⟨tail, rfl⟩ _
  have hlonger : fits (joinWords ([word] ++ (next :: start) ++ [])) = true := by
    rw [List.append_nil]
    exact htakes (next :: start) ⟨tail, rfl⟩ (List.cons_ne_nil _ _)
  refine hshrinks [word] (next :: start) [] (List.cons_ne_nil _ _) (fun text htext => ?_) hlonger
  rw [List.append_nil] at htext
  refine hwords text ?_
  simp only [List.cons_append, List.nil_append, List.mem_cons, List.mem_append] at htext ⊢
  exact htext.imp_right (Or.imp_right Or.inl)

end Shrinks

theorem length_fillRuns_le (run : List (List Char))
    (hrest : ∀ later, later <:+ rest →
      (greedyRuns fits later).length ≤ (greedyRuns fits rest).length) :
    (fillRuns fits run rest).length ≤ (greedyRuns fits rest).length + 1 := by
  obtain ⟨more, later, htexts, -, -, hruns⟩ := fillRuns_cases fits run rest
  rw [hruns, List.length_cons]
  exact Nat.succ_le_succ (hrest later ⟨more, htexts.symm⟩)

/-- Words that are left out at the start are never missed. -/
theorem length_greedyRuns_le_of_suffix (hshrinks : Shrinks fits)
    (hwords : ∀ text ∈ texts, IsWord text) (hlater : later <:+ texts) :
    (greedyRuns fits later).length ≤ (greedyRuns fits texts).length := by
  induction hlength : texts.length using Nat.strong_induction_on generalizing texts later with
  | _ length ih =>
      cases texts with
      | nil => rw [List.suffix_nil.mp hlater]
      | cons word rest =>
          rcases List.suffix_cons_iff.mp hlater with rfl | hlater
          · exact Nat.le_refl _
          have hrestWords : ∀ text ∈ rest, IsWord text :=
            fun text htext => hwords text (List.mem_cons_of_mem _ htext)
          refine (ih rest.length ?_ hrestWords hlater rfl).trans ?_
          · rw [← hlength]
            exact Nat.lt_succ_self _
          obtain ⟨more, behind, rfl, htakes, -, hruns⟩ := fillRuns_cases fits [word] rest
          rw [greedyRuns, hruns, List.length_cons]
          cases more with
          | nil => exact Nat.le_succ _
          | cons next more =>
              -- The second word takes all that the first one took behind it.
              have htail : Takes fits [next] more := by
                refine hshrinks.takes_tail (fun text htext => hwords text ?_) htakes
                exact List.mem_cons.mpr ((List.mem_cons.mp htext).imp_right
                  (List.mem_append_left behind))
              rw [List.cons_append, greedyRuns, fillRuns_append htail]
              refine length_fillRuns_le _ fun later hlater => ih behind.length ?_ ?_ hlater rfl
              · simp only [List.length_cons, List.length_append] at hlength
                omega
              · exact fun text htext => hrestWords text (List.mem_append_right _ htext)

/-- **Greedy runs are the fewest.** -/
theorem length_greedyRuns_le {runs : List (List (List Char))} (hshrinks : Shrinks fits)
    (hwords : ∀ text ∈ runs.flatten, IsWord text)
    (hfitting : ∀ run ∈ runs, run.length ≤ 1 ∨ fits (joinWords run) = true) :
    (greedyRuns fits runs.flatten).length ≤ runs.length := by
  induction runs with
  | nil => exact Nat.le_refl _
  | cons run runs ih =>
      rw [List.flatten_cons] at hwords ⊢
      obtain ⟨hrunWords, hlaterWords⟩ := List.forall_mem_append.mp hwords
      obtain ⟨hrun, hruns⟩ := List.forall_mem_cons.mp hfitting
      have hlater := ih hlaterWords hruns
      cases run with
      | nil => exact hlater.trans (Nat.le_succ _)
      | cons word more =>
          rw [List.cons_append, greedyRuns,
            fillRuns_append (hshrinks.takes_of_fits hrunWords hrun)]
          calc (fillRuns fits ([word] ++ more) runs.flatten).length
              ≤ (greedyRuns fits runs.flatten).length + 1 :=
                length_fillRuns_le _ fun later =>
                  length_greedyRuns_le_of_suffix hshrinks hlaterWords
            _ ≤ runs.length + 1 := Nat.succ_le_succ hlater

theorem LaidOut.length_wrapPart_le {part : List Char} {runs : List (List (List Char))}
    (hlaid : LaidOut fits part runs) (hshrinks : Shrinks fits) :
    (wrapPart fits part).length ≤ runs.length := by
  by_cases hwords : words part = []
  · rw [wrapPart, hwords]
    exact List.length_pos_iff.mpr hlaid.ne_nil
  · rw [wrapPart_of_words hwords, List.length_map, ← hlaid.flatten_eq]
    refine length_greedyRuns_le hshrinks (fun text htext => ?_) hlaid.fitting
    rw [hlaid.flatten_eq] at htext
    exact isWord_of_mem_words htext

theorem laidOut_wrapPart (fits : List Char → Bool) (part : List Char) :
    LaidOut fits part ((wrapPart fits part).map words) := by
  have hfilled := filledGreedily_wrapPart fits part
  refine ⟨?_, ?_, List.forall_mem_map.mpr fun line hline => ?_⟩
  · rw [← List.flatMap_def]
    exact hfilled.words_eq
  · intro hnone
    have hlines := List.map_eq_nil_iff.mp hnone
    by_cases hwords : words part = []
    · exact absurd ((hfilled.empty hwords).symm.trans hlines) (List.cons_ne_nil _ _)
    · have hflat := hfilled.words_eq
      rw [hlines] at hflat
      exact hwords hflat.symm
  · by_cases hone : (words line).length ≤ 1
    · exact .inl hone
    · exact .inr (hfilled.fitted line hline _ List.prefix_rfl (Nat.lt_of_not_le hone))

theorem length_flatMap_wrapPart_le (hshrinks : Shrinks fits) {parts : List (List Char)}
    {division : List (List (List (List Char)))}
    (hdivision : List.Forall₂ (LaidOut fits) parts division) :
    (parts.flatMap (wrapPart fits)).length ≤ division.flatten.length := by
  induction hdivision with
  | nil => exact Nat.le_refl _
  | cons hpart _ ih =>
      rw [List.flatMap_cons, List.length_append, List.flatten_cons, List.length_append]
      exact Nat.add_le_add (hpart.length_wrapPart_le hshrinks) ih

variable {α : Type} [Scale α]

/-- **The fewest lines.** If a fitting run of words still fits with words dropped from its ends, a
text is wrapped to as few lines as it can be divided into: every part between breaks into at least
one line, its words in order, and no line of more than one word too wide. -/
theorem wrapLines_fewest (measure : String → TextStyle α → TextMetrics α) (style : TextStyle α)
    (maxWidth : α) (hshrinks : Shrinks (fitsWidth measure style maxWidth)) (text : String) :
    IsLeast {count | ∃ division, List.Forall₂ (LaidOut (fitsWidth measure style maxWidth))
        (splitBreaks text.toList) division ∧ division.flatten.length = count}
      (wrapLines measure text style maxWidth).length := by
  constructor
  · refine ⟨(splitBreaks text.toList).map fun part =>
      (wrapPart (fitsWidth measure style maxWidth) part).map words, ?_, ?_⟩
    · exact List.forall₂_map_right_iff.mpr
        (List.forall₂_same.mpr fun part _ => laidOut_wrapPart _ part)
    · rw [wrapLines, List.length_map, List.flatMap_def, List.length_flatten, List.length_flatten,
        List.map_map, List.map_map]
      congr 1
      exact List.map_congr_left fun part _ => List.length_map _
  · rintro count ⟨division, hdivision, rfl⟩
    rw [wrapLines, List.length_map]
    exact length_flatMap_wrapPart_le hshrinks hdivision

/-- Every character takes one unit. -/
def letterMeasure (text : String) (style : TextStyle ℚ) : TextMetrics ℚ :=
  { width := text.length, height := style.fontSize, lineCount := 1 }

theorem shrinks_letters (style : TextStyle ℚ) (maxWidth : ℚ) :
    Shrinks (fitsWidth letterMeasure style maxWidth) := by
  refine Shrinks.of_part fun part whole hpart hfits => decide_eq_true ?_
  have hwhole : ((String.ofList whole).length : ℚ) ≤ maxWidth := of_decide_eq_true hfits
  have hlength : (String.ofList part).length ≤ (String.ofList whole).length := by
    rw [String.length_ofList, String.length_ofList]
    exact hpart.length_le
  exact le_trans (Nat.cast_le.mpr hlength) hwhole

theorem letters_wrapLines_fewest :
    Shrinks (fitsWidth letterMeasure ⟨none, 16, none⟩ 7) ∧
      IsLeast {count | ∃ division, List.Forall₂
          (LaidOut (fitsWidth letterMeasure ⟨none, 16, none⟩ 7))
          (splitBreaks "aaa bb ccc<br>unbreakable d".toList) division ∧
          division.flatten.length = count}
        (wrapLines letterMeasure "aaa bb ccc<br>unbreakable d" ⟨none, 16, none⟩ 7).length :=
  ⟨shrinks_letters _ 7, wrapLines_fewest letterMeasure _ 7 (shrinks_letters _ 7) _⟩

end SequenceChart
