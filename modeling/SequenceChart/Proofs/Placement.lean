import SequenceChart.Proofs.Lines
import SequenceChart.Proofs.Phases
import SequenceChart.Proofs.Pieces

/-!
# Places of kept characters

A character that is kept stands on the same line of the code as of the source text, and in the same
column unless something removed ends before it on its line. So the line that an error of the code is
reported at is the line in the text as it was written.
-/

namespace SequenceChart

/-- A place within a piece: the pieces before that one, and the text before the place in it. -/
structure Place where
  earlier : List Piece
  before : List Char

namespace Place

def inText (place : Place) : List Char :=
  originOf place.earlier ++ place.before

def inCode (place : Place) : List Char :=
  residueOf place.earlier ++ place.before

/-- The character that stands at the place is kept. -/
def Keeps (place : Place) (pieces : List Piece) (char : Char) : Prop :=
  ∃ after later, pieces = place.earlier ++ .kept (place.before ++ char :: after) :: later

/-- A removed block has its last character on the line of the place. -/
def FollowsRemoved (place : Place) : Prop :=
  ∃ front block rest, place.earlier = front ++ .removed block :: rest ∧
    (Position.after (originOf front ++ block.dropLast)).line = (Position.after place.inText).line

end Place

theorem count_lineBreaks (block : List Char) : (lineBreaks block).count '\n' = block.count '\n' :=
  List.count_replicate_self

theorem count_residueOf (pieces : List Piece) :
    (residueOf pieces).count '\n' = (originOf pieces).count '\n' := by
  induction pieces with
  | nil => rfl
  | cons piece pieces ih =>
      have hpiece : piece.residue.count '\n' = piece.origin.count '\n' := by
        cases piece with
        | kept text => rfl
        | removed block => exact count_lineBreaks block
      rw [residueOf_cons, originOf_cons, List.count_append, List.count_append, hpiece, ih]

/-- Behind the last removed block, the text is in the code as it is. -/
theorem exists_last_removed (pieces : List Piece) :
    residueOf pieces = originOf pieces ∨
      ∃ front block rest, pieces = front ++ .removed block :: rest ∧
        residueOf rest = originOf rest := by
  induction pieces with
  | nil => exact .inl rfl
  | cons piece pieces ih =>
      rcases ih with hsame | ⟨front, block, rest, rfl, hsame⟩
      · cases piece with
        | kept text =>
            rw [residueOf_cons, originOf_cons, hsame]
            exact .inl rfl
        | removed block => exact .inr ⟨[], block, pieces, rfl, hsame⟩
      · exact .inr ⟨piece :: front, block, rest, rfl, hsame⟩

/-- Columns behind a block are the same behind its line breaks, if one of them is the last character
of the block or stands behind it. -/
theorem column_of_lineBreaks {block kept : List Char}
    (hbreak : block.dropLast.count '\n' < (block ++ kept).count '\n') (front other : List Char) :
    (Position.after (other ++ lineBreaks block ++ kept)).column =
      (Position.after (front ++ block ++ kept)).column := by
  by_cases hkept : '\n' ∈ kept
  · obtain ⟨early, line, rfl⟩ := List.append_of_mem hkept
    rw [← List.append_assoc, ← List.append_assoc, Position.after_column_of_break,
      Position.after_column_of_break]
  · have hne : block ≠ [] := by
      rintro rfl
      exact absurd (List.count_pos_iff.mp hbreak) hkept
    have hblock := List.dropLast_concat_getLast hne
    have hlast : block.getLast hne = '\n' := by
      rw [List.count_append, List.count_eq_zero.mpr hkept, ← hblock, List.dropLast_concat,
        List.count_append] at hbreak
      exact List.mem_singleton.mp (List.count_pos_iff.mp (by omega)) |>.symm
    rw [hlast] at hblock
    have hbreaks : lineBreaks block = lineBreaks block.dropLast ++ ['\n'] := by
      rw [lineBreaks, ← hblock, List.count_append, List.dropLast_concat]
      exact List.replicate_succ'
    calc
      (Position.after (other ++ lineBreaks block ++ kept)).column =
          (Position.after (other ++ lineBreaks block.dropLast ++ '\n' :: kept)).column := by
        rw [hbreaks]
        simp only [List.append_assoc, List.singleton_append]
      _ = (Position.after (front ++ block.dropLast ++ '\n' :: kept)).column := by
        rw [Position.after_column_of_break, Position.after_column_of_break]
      _ = (Position.after (front ++ block ++ kept)).column := by
        rw [← hblock, List.dropLast_concat]
        simp only [List.append_assoc, List.singleton_append]

namespace Place

theorem inCode_line (place : Place) :
    (Position.after place.inCode).line = (Position.after place.inText).line := by
  rw [Position.after_line, Position.after_line, inCode, inText, List.count_append,
    List.count_append, count_residueOf]

theorem inCode_column {place : Place} (hfollows : ¬place.FollowsRemoved) :
    (Position.after place.inCode).column = (Position.after place.inText).column := by
  obtain ⟨earlier, before⟩ := place
  rcases exists_last_removed earlier with hsame | ⟨front, block, rest, rfl, hsame⟩
  · rw [inCode, inText, hsame]
  · have hline : ¬(Position.after (originOf front ++ block.dropLast)).line =
        (Position.after (Place.mk (front ++ .removed block :: rest) before).inText).line := by
      intro hline
      exact hfollows ⟨front, block, rest, rfl, hline⟩
    have htext : (Place.mk (front ++ .removed block :: rest) before).inText =
        originOf front ++ block ++ (originOf rest ++ before) := by
      simp [inText, Piece.origin]
    have hcode : (Place.mk (front ++ .removed block :: rest) before).inCode =
        residueOf front ++ lineBreaks block ++ (originOf rest ++ before) := by
      simp [inCode, hsame, Piece.residue]
    rw [htext, Position.after_line, Position.after_line] at hline
    rw [htext, hcode]
    apply column_of_lineBreaks
    have hblock := (List.dropLast_sublist block).count_le '\n'
    simp only [List.count_append] at hline ⊢
    omega

/-- A kept character stands in the text as it was written on the line that its place has in the
code. -/
theorem Keeps.exists_glyph {place : Place} {pieces : List Piece} {char : Char} {text : List Char}
    (hkeeps : place.Keeps pieces char) (htext : originOf pieces = unifyLineBreaks text) :
    ∃ first glyph last, text = first ++ glyph ++ last ∧ unifyLineBreaks first = place.inText ∧
      unifyLineBreaks glyph = [char] ∧ place.inText ++ char :: unifyLineBreaks last =
        unifyLineBreaks text ∧
      (Position.after place.inCode).line = 1 + breakCount first := by
  obtain ⟨after, later, rfl⟩ := hkeeps
  have hunified : unifyLineBreaks text = place.inText ++ char :: (after ++ originOf later) := by
    rw [← htext]
    simp [inText, Piece.origin]
  obtain ⟨first, glyph, last, rfl, hfirst, hglyph, hlast⟩ := SequenceChart.exists_glyph hunified
  refine ⟨first, glyph, last, rfl, hfirst, hglyph, by rw [hlast, hunified], ?_⟩
  rw [inCode_line, Position.after_line, breakCount_eq_count, hfirst]

end Place

theorem textBefore_isPrefix (offset : Nat) (text : List Char) :
    textBefore offset text <+: text := by
  induction text generalizing offset with
  | nil => exact List.prefix_rfl
  | cons char rest ih =>
      rw [textBefore]
      split
      · exact List.nil_prefix
      · exact List.cons_prefix_cons.mpr ⟨rfl, ih _⟩

theorem Chart.position_of_error {chart : Chart} {code : String} {switches : List WrapSwitch}
    {error : ReadingError} (hread : (chart.readCode code switches).2 = some error) :
    ∃ passed, passed <+: code.toList ∧ error.position = .after passed := by
  obtain ⟨⟨offset, fault⟩, -, rfl⟩ := Option.map_eq_some_iff.mp hread
  exact ⟨textBefore offset code.toList, textBefore_isPrefix offset code.toList, rfl⟩

/-- What is removed from a text leaves all that is kept on its line, and in its column unless it
ends on that line. A reading that fails tells the line in the text as it was written. -/
theorem Source.read_keeps_lines {text : String} {source : Source}
    (hread : Source.read text = .ok source) :
    CutIntoPieces (unifyLineBreaks text.toList) (piecesOf (unifyLineBreaks text.toList)) ∧
      originOf (piecesOf (unifyLineBreaks text.toList)) = unifyLineBreaks text.toList ∧
      source.code.toList = residueOf (piecesOf (unifyLineBreaks text.toList)) ∧
      (∀ (place : Place) (char : Char),
        place.Keeps (piecesOf (unifyLineBreaks text.toList)) char →
          (Position.after place.inCode).line = (Position.after place.inText).line ∧
          (¬place.FollowsRemoved →
            (Position.after place.inCode).column = (Position.after place.inText).column)) ∧
      ∀ (engine : Engine) (chart : Chart) (error : ReadingError),
        (engine.parseInto chart text).2 = .error (.reading error) →
          (∃ passed, passed <+: source.code.toList ∧ error.position = .after passed) ∧
          ∀ (place : Place) (char : Char),
            place.Keeps (piecesOf (unifyLineBreaks text.toList)) char →
            error.position = .after place.inCode →
              ∃ first glyph last, text.toList = first ++ glyph ++ last ∧
                unifyLineBreaks first = place.inText ∧ unifyLineBreaks glyph = [char] ∧
                place.inText ++ char :: unifyLineBreaks last = unifyLineBreaks text.toList ∧
                error.position.line = 1 + breakCount first := by
  obtain ⟨hcut, hcode⟩ := code_eq_residueOf hread
  refine ⟨hcut, hcut.originOf, hcode, ?_, ?_⟩
  · intro place char _
    exact ⟨place.inCode_line, fun hfollows => Place.inCode_column hfollows⟩
  · intro engine chart error hparse
    refine ⟨?_, ?_⟩
    · obtain ⟨found, settings, hfound, -, hreading⟩ :=
        Engine.parseInto_eq_reading (Prod.ext rfl hparse)
      obtain rfl := Except.ok.inj (hfound.symm.trans hread)
      exact Chart.position_of_error (congrArg Prod.snd hreading)
    · intro place char hkeeps hposition
      rw [hposition]
      exact hkeeps.exists_glyph hcut.originOf

/-- A text with each kind of line break, one of them in a directive. -/
def misspelled : String := "%%\x7b\r\nwrap\n\x7d%%\r\nsequenceDiagram\rfoo"

def misspelledSource : Source where
  code := "\n\n\nsequenceDiagram\nfoo"
  title := none
  fragments := []
  switches := [⟨0, true⟩]

theorem Source.read_misspelled : Source.read misspelled = .ok misspelledSource := by
  have hcut : FrontMatter.cut? (unifyLineBreaks misspelled.toList) = none := by decide +kernel
  have hsplit : Segment.split (unifyLineBreaks misspelled.toList) =
      [.plain [], .directive "\nwrap\n".toList, .plain "\nsequenceDiagram\nfoo".toList] := by
    decide +kernel
  simp only [Source.read, FrontMatter.split, hcut]
  change (readDirectives 0 (Segment.split _) >>= _) = _
  rw [hsplit]
  rfl

theorem Source.misspelled_keeps_lines :
    Source.read misspelled = .ok misspelledSource ∧
      ∃ first glyph last, misspelled.toList = first ++ glyph ++ last ∧
        unifyLineBreaks first = "%%\x7b\nwrap\n\x7d%%\nsequenceDiagram\n".toList ∧
        unifyLineBreaks glyph = ['f'] ∧ 5 = 1 + breakCount first := by
  have hcode : ((Engine.startChart Engine.standard.base misspelledSource.title).readCode
      misspelledSource.code misspelledSource.switches).2 =
        some ⟨⟨5, 1⟩, .complaint (.unrecognized "foo")⟩ := by decide +kernel
  have hparse := Engine.parseInto_of_readCode read_misspelled rfl hcode .empty
  obtain ⟨-, -, -, -, hlines⟩ := read_keeps_lines read_misspelled
  have hkeeps : Place.Keeps ⟨[.kept [], .removed "%%\x7b\nwrap\n\x7d%%".toList],
      "\nsequenceDiagram\n".toList⟩ (piecesOf (unifyLineBreaks misspelled.toList)) 'f' :=
    ⟨"oo".toList, [], by decide +kernel⟩
  obtain ⟨first, glyph, last, htext, hfirst, hglyph, -, hline⟩ :=
    (hlines Engine.standard .empty _ hparse).2 _ 'f' hkeeps (by decide +kernel)
  exact ⟨read_misspelled, first, glyph, last, htext, hfirst, hglyph, hline⟩

end SequenceChart
