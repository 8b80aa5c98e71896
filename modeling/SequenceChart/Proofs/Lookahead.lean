import SequenceChart.Grammar.Reading

/-!
# Lookahead

Where a statement or a name ends is decided by two characters, and so is where a comment starts.
-/

namespace SequenceChart

theorem endsStatement_cons (char : Char) (rest : List Char) :
    endsStatement (char :: rest) =
      (char == '\n' || char == ';' || char == '#' || (char == '%' && rest.head? == some '%')) := by
  unfold endsStatement
  split
  case h_6 hbreak hsemicolon hhash hpercents =>
    have hchar : char ≠ '\n' ∧ char ≠ ';' ∧ char ≠ '#' := by
      refine ⟨?_, ?_, ?_⟩ <;> rintro rfl
      · exact hbreak _ rfl
      · exact hsemicolon _ rfl
      · exact hhash _ rfl
    cases rest with
    | nil => simp [hchar]
    | cons second rest =>
        have hpair : char = '%' → second ≠ '%' := by
          rintro rfl rfl
          exact hpercents _ rfl
        simpa [hchar] using hpair
  all_goals simp_all

theorem endsStatement_cons_imp {char : Char} {rest other : List Char}
    (hhead : rest.head? = some '%' → other.head? = some '%')
    (hends : endsStatement (char :: rest) = true) : endsStatement (char :: other) = true := by
  rw [endsStatement_cons] at hends ⊢
  simp only [Bool.or_eq_true, Bool.and_eq_true, beq_iff_eq] at hends ⊢
  exact hends.imp_right fun hpercents => ⟨hpercents.1, hhead hpercents.2⟩

theorem blankLength_true_cons {char : Char} (hbreak : char ≠ '\n') (rest : List Char) :
    blankLength true (char :: rest) = 1 + blankLength true rest := by
  rw [blankLength, if_pos rfl]
  exact hbreak

theorem blankLength_false_cons {char : Char} (hbreak : char ≠ '\n') (rest : List Char) :
    blankLength false (char :: rest) =
      if isIndent char || char == ';' then 1 + blankLength false rest
      else if endsStatement (char :: rest) then 1 + blankLength true rest else 0 := by
  rw [blankLength]
  · by_cases hindent : (isIndent char || char == ';') = true
    · simp [hindent]
    · rw [endsStatement_cons]
      simp only [Bool.or_eq_true, not_or] at hindent
      have hbreak : (char == '\n') = false := by simpa using hbreak
      simp [hindent, hbreak]
  · exact hbreak

theorem blankLength_true_pos {text : List Char} (htext : text ≠ []) :
    0 < blankLength true text := by
  obtain ⟨char, rest, rfl⟩ := List.exists_cons_of_ne_nil htext
  by_cases hbreak : char = '\n'
  · rw [hbreak, blankLength]
    omega
  · rw [blankLength_true_cons hbreak]
    omega

namespace Reading

theorem startsArrow_cons (char : Char) (rest : List Char) :
    startsArrow (char :: rest) = (char == '-' &&
      (rest.head? == some '-' || rest.head? == some '>' || rest.head? == some 'x')) := by
  cases rest with
  | nil => simp [startsArrow]
  | cons second rest =>
      by_cases hchar : char = '-'
      · subst hchar
        by_cases hsecond : second = '-' ∨ second = '>' ∨ second = 'x'
        · rcases hsecond with rfl | rfl | rfl <;> rfl
        · simp only [not_or] at hsecond
          simp [startsArrow, hsecond]
      · simp [startsArrow, hchar]

theorem endsActor_cons (char : Char) (rest : List Char) :
    endsActor (char :: rest) = (char == ',' || char == ':' || char == '+' || char == '>' ||
      endsStatement (char :: rest) || startsArrow (char :: rest)) := by
  by_cases hmark : char = ',' ∨ char = ':' ∨ char = '+' ∨ char = '>'
  · rcases hmark with rfl | rfl | rfl | rfl <;> rfl
  · simp only [not_or] at hmark
    obtain ⟨hcomma, hcolon, hplus, hgreater⟩ := hmark
    simp [endsActor, beq_eq_false_iff_ne.mpr hcomma, beq_eq_false_iff_ne.mpr hcolon,
      beq_eq_false_iff_ne.mpr hplus, beq_eq_false_iff_ne.mpr hgreater, hcomma, hcolon, hplus,
      hgreater]

theorem endsActor_of_endsStatement {text : List Char} (hends : endsStatement text = true) :
    endsActor text = true := by
  cases text with
  | nil => rfl
  | cons char text => simp [endsActor_cons, hends]

theorem endsStatement_of_endsActor {text : List Char} (hends : endsActor text = false) :
    endsStatement text = false := by
  by_cases hstatement : endsStatement text = true
  · rw [endsActor_of_endsStatement hstatement] at hends
    exact absurd hends (by decide)
  · simpa using hstatement

end Reading

end SequenceChart
