import SequenceChart.Proofs.Placement
import SequenceChart.Proofs.Truncation

/-!
# Where statements start

The statements of a script start one after the other. Each starts with a character that is no line
break, and such a character of the code stands in the source text too.
-/

namespace SequenceChart

def Ending.offset : Ending → Nat
  | complete offset | unreadable offset _ | cluttered offset _ => offset

namespace Script

end Script

/-- A character of the code is kept from the text, unless it is a line break. -/
theorem exists_place {pieces : List Piece} {before after : List Char} {char : Char}
    (hcode : residueOf pieces = before ++ char :: after) (hchar : char ≠ '\n') :
    ∃ place : Place, place.Keeps pieces char ∧ place.inCode = before := by
  induction pieces generalizing before with
  | nil =>
      have hlength := congrArg List.length hcode
      simp [residueOf] at hlength
  | cons piece pieces ih =>
      rw [residueOf_cons, List.append_eq_append_iff] at hcode
      have hlater {behind : List Char} (hbefore : before = piece.residue ++ behind)
          (hrest : residueOf pieces = behind ++ char :: after) :
          ∃ place : Place, place.Keeps (piece :: pieces) char ∧ place.inCode = before := by
        obtain ⟨⟨earlier, text⟩, ⟨kept, later, rfl⟩, hplace⟩ := ih hrest
        refine ⟨⟨piece :: earlier, text⟩, ⟨kept, later, rfl⟩, ?_⟩
        rw [hbefore, ← hplace, Place.inCode, Place.inCode, residueOf_cons, List.append_assoc]
      rcases hcode with ⟨behind, hbefore, hrest⟩ | ⟨behind, hpiece, hbehind⟩
      · exact hlater hbefore hrest
      · cases behind with
        | nil =>
            rw [List.append_nil] at hpiece
            exact @hlater [] (hpiece.symm.trans (List.append_nil _).symm) hbehind.symm
        | cons first behind =>
            obtain ⟨rfl, -⟩ := List.cons.inj hbehind
            cases piece with
            | kept text =>
                exact ⟨⟨[], before⟩, ⟨behind, pieces, by rw [← hpiece]; rfl⟩, rfl⟩
            | removed block =>
                have hmem : char ∈ lineBreaks block := by
                  change lineBreaks block = _ at hpiece
                  rw [hpiece]
                  exact List.mem_append_right _ (List.mem_cons_self ..)
                exact absurd (List.eq_of_mem_replicate hmem) hchar

end SequenceChart
