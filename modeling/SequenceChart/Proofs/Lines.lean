import SequenceChart.Text.Break
import SequenceChart.Text.Position

/-!
# Lines

The line of a place is told by the line breaks before it, its column by what stands behind the last
of them. In a text as it was written, a carriage return, a line feed and both in this order are one
line break each.
-/

namespace SequenceChart

/-- The line breaks of a text as it was written. -/
def breakCount : List Char → Nat
  | [] => 0
  | '\r' :: '\n' :: rest => 1 + breakCount rest
  | '\r' :: rest => 1 + breakCount rest
  | '\n' :: rest => 1 + breakCount rest
  | _ :: rest => breakCount rest

theorem unifyLineBreaks_cons {char : Char} (hreturn : char ≠ '\r') (rest : List Char) :
    unifyLineBreaks (char :: rest) = char :: unifyLineBreaks rest := by
  rw [unifyLineBreaks]
  · intro more hchar
    exact absurd hchar hreturn
  · exact hreturn

theorem breakCount_eq_count (text : List Char) :
    breakCount text = (unifyLineBreaks text).count '\n' := by
  fun_induction unifyLineBreaks text with
  | case1 => rfl
  | case2 rest ih => simp [breakCount, ih, Nat.add_comm]
  | case3 rest hrest ih =>
      rw [breakCount, ih]
      · simp [Nat.add_comm]
      · exact hrest
  | case4 char rest hpair hreturn ih =>
      by_cases hbreak : char = '\n'
      · subst hbreak
        rw [breakCount, ih]
        simp [Nat.add_comm]
      · rw [breakCount, ih, List.count_cons_of_ne hbreak]
        · exact hpair
        · exact hreturn
        · exact hbreak

/-- A character of the uniform text has a place in the text as it was written. -/
theorem exists_glyph {text before after : List Char} {char : Char}
    (hunified : unifyLineBreaks text = before ++ char :: after) :
    ∃ first glyph last, text = first ++ glyph ++ last ∧ unifyLineBreaks first = before ∧
      unifyLineBreaks glyph = [char] ∧ unifyLineBreaks last = after := by
  fun_induction unifyLineBreaks text generalizing before with
  | case1 => simp at hunified
  | case2 rest ih =>
      cases before with
      | nil =>
          obtain ⟨rfl, rfl⟩ := List.cons.inj hunified
          exact ⟨[], ['\r', '\n'], rest, rfl, rfl, rfl, rfl⟩
      | cons other before =>
          obtain ⟨rfl, hrest⟩ := List.cons.inj hunified
          obtain ⟨first, glyph, last, rfl, rfl, hglyph, hlast⟩ := ih hrest
          exact ⟨'\r' :: '\n' :: first, glyph, last, rfl, rfl, hglyph, hlast⟩
  | case3 rest hrest ih =>
      cases before with
      | nil =>
          obtain ⟨rfl, rfl⟩ := List.cons.inj hunified
          exact ⟨[], ['\r'], rest, rfl, rfl, rfl, rfl⟩
      | cons other before =>
          obtain ⟨rfl, hbefore⟩ := List.cons.inj hunified
          obtain ⟨first, glyph, last, rfl, rfl, hglyph, hlast⟩ := ih hbefore
          refine ⟨'\r' :: first, glyph, last, rfl, ?_, hglyph, hlast⟩
          rw [unifyLineBreaks]
          intro more hmore
          exact hrest (more ++ glyph ++ last) (by rw [hmore]; rfl)
  | case4 other rest hpair hreturn ih =>
      cases before with
      | nil =>
          obtain ⟨rfl, rfl⟩ := List.cons.inj hunified
          exact ⟨[], [other], rest, rfl, rfl, unifyLineBreaks_cons hreturn [], rfl⟩
      | cons next before =>
          obtain ⟨rfl, hbefore⟩ := List.cons.inj hunified
          obtain ⟨first, glyph, last, rfl, rfl, hglyph, hlast⟩ := ih hbefore
          exact ⟨other :: first, glyph, last, rfl, unifyLineBreaks_cons hreturn first, hglyph,
            hlast⟩

namespace Position

theorem advance_line (position : Position) (char : Char) :
    (position.advance char).line = position.line + [char].count '\n' := by
  unfold advance
  by_cases hbreak : char = '\n'
  · subst hbreak
    rfl
  · simp [hbreak]

theorem foldl_advance_line (text : List Char) (position : Position) :
    (text.foldl advance position).line = position.line + text.count '\n' := by
  induction text generalizing position with
  | nil => rfl
  | cons char rest ih =>
      rw [List.foldl_cons, ih, advance_line, Nat.add_assoc, ← List.count_append,
        List.singleton_append]

theorem after_line (text : List Char) : (after text).line = 1 + text.count '\n' :=
  foldl_advance_line text start

theorem advance_column_congr {position other : Position} (hcolumn : position.column = other.column)
    (char : Char) : (position.advance char).column = (other.advance char).column := by
  unfold advance
  by_cases hbreak : char = '\n'
  · rw [if_pos hbreak, if_pos hbreak]
  · rw [if_neg hbreak, if_neg hbreak, hcolumn]

theorem foldl_advance_column_congr {position other : Position}
    (hcolumn : position.column = other.column) (text : List Char) :
    (text.foldl advance position).column = (text.foldl advance other).column := by
  induction text generalizing position other with
  | nil => exact hcolumn
  | cons char rest ih => exact ih (advance_column_congr hcolumn char)

/-- What stands before a line break has no part in the columns behind it. -/
theorem after_column_of_break (before rest : List Char) :
    (after (before ++ '\n' :: rest)).column = (after rest).column := by
  have hbreak (position : Position) : (position.advance '\n').column = start.column := by
    rw [advance, if_pos rfl]
    rfl
  unfold after
  rw [List.foldl_append, List.foldl_cons]
  exact foldl_advance_column_congr (hbreak _) rest

end Position

end SequenceChart
