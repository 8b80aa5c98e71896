import SequenceChart.Grammar.Script

/-!
# The statements of a script

What the next step in the reading of a script does, one equation for each way it can go.
-/

namespace SequenceChart

namespace Script

variable {cursor later : Cursor} {statement : Statement} {complaint : Complaint}

theorem readStatements_of_blank (hblank : cursor.skipBlank.rest = []) :
    readStatements cursor = ([], .complete cursor.skipBlank.offset) := by
  rw [readStatements]
  simp [hblank]

theorem readStatements_of_error (hblank : cursor.skipBlank.rest ≠ [])
    (hread : Reading.statement cursor.skipBlank = .error complaint) :
    readStatements cursor = ([], .unreadable cursor.skipBlank.offset complaint) := by
  rw [readStatements]
  simp only [List.isEmpty_iff, hblank, if_false]
  split
  · rename_i other hother
    rw [Except.error.inj (hother.symm.trans hread)]
  · rename_i hok
    cases hok.symm.trans hread

theorem readStatements_of_ok (hblank : cursor.skipBlank.rest ≠ [])
    (hread : Reading.statement cursor.skipBlank = .ok (statement, later)) :
    readStatements cursor =
      if endsStatement later.skipIndent.rest then
        ((cursor.skipBlank.offset, statement) :: (readStatements later.skipIndent).1,
          (readStatements later.skipIndent).2)
      else ([(cursor.skipBlank.offset, statement)], clutter later.skipIndent) := by
  rw [readStatements]
  simp only [List.isEmpty_iff, hblank, if_false]
  split
  · rename_i herror
    cases herror.symm.trans hread
  · rename_i found hok
    obtain ⟨rfl, rfl⟩ := Prod.mk.inj (Except.ok.inj (hok.symm.trans hread))
    rfl

end Script

end SequenceChart
