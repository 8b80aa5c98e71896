import SequenceChart.Grammar.Progress

/-!
# Scripts

The code of a diagram as a list of statements, each with the offset at which it starts, and the way
in which the reading ended. A script is read from the text alone.
-/

namespace SequenceChart

inductive Ending
  /-- The end of the text was reached. -/
  | complete (offset : Nat)
  /-- The text at the offset is no statement. -/
  | unreadable (offset : Nat) (complaint : Complaint)
  /-- Something that belongs to no statement stands behind one. -/
  | cluttered (offset : Nat) (complaint : Complaint)
  deriving DecidableEq, Repr

structure Script where
  /-- Where the header stands, or should stand. -/
  header : Nat
  statements : List (Nat × Statement)
  ending : Ending
  deriving DecidableEq, Repr

namespace Script

def clutter (cursor : Cursor) : Ending :=
  .cluttered cursor.offset (.unexpected cursor.excerpt)

def readStatements (cursor : Cursor) : List (Nat × Statement) × Ending :=
  let start := cursor.skipBlank
  if start.rest.isEmpty then ([], .complete start.offset)
  else
    match _hread : Reading.statement start with
    | .error complaint => ([], .unreadable start.offset complaint)
    | .ok (statement, later) =>
        let stop := later.skipIndent
        if endsStatement stop.rest then
          let (statements, ending) := readStatements stop
          ((start.offset, statement) :: statements, ending)
        else ([(start.offset, statement)], clutter stop)
termination_by cursor.rest.length
decreasing_by
  have hblank := cursor.leads_skipBlank.length_le
  have hstatement : later.rest.length < cursor.skipBlank.rest.length :=
    Reading.length_lt_of_statement _hread
  have hindent := later.leads_skipIndent.length_le
  omega

def headerWord : String := "sequenceDiagram"

def read (code : List Char) : Script :=
  let start := (Cursor.ofText code).skipBlank
  match start.skipWord? Reading.followsKeyword headerWord with
  | none =>
      { header := start.offset, statements := [],
        ending := .unreadable start.offset .missingHeader }
  | some later =>
      let stop := later.skipIndent
      if endsStatement stop.rest then
        let (statements, ending) := readStatements stop
        { header := start.offset, statements, ending }
      else { header := start.offset, statements := [], ending := clutter stop }

end Script

end SequenceChart
