import SequenceChart.Diagram.Kind

/-!
# Statements

What the lines of a diagram say, and what can be wrong with them.
-/

namespace SequenceChart

inductive Statement
  | declare (role : ActorRole) (id : String) (label : Option String)
  | autonumber
  | title (text : String)
  | accTitle (text : String)
  | accDescription (text : String)
  | activate (actor : String)
  | deactivate (actor : String)
  | note (placement : NotePlacement) (first : String) (second : Option String) (text : String)
  | opening (kind : BlockKind) (label : String)
  | divider (kind : SectionKind) (label : String)
  | closing
  /-- A message may start an activation of its target or end one of its source. -/
  | message (source target : String) (kind : MessageKind) (edge : Option ActivationEdge)
      (text : String)
  deriving DecidableEq, Repr

/-- The words that statements other than messages start with. -/
inductive Keyword
  | declare (role : ActorRole)
  | autonumber
  | title
  | accTitle
  | accDescription
  | activate
  | deactivate
  | note
  | opening (kind : BlockKind)
  | divider (kind : SectionKind)
  | closing
  deriving DecidableEq, Repr

def SectionKind.word : SectionKind → String
  | altElse => "else"
  | parAnd => "and"

namespace Keyword

def all : List Keyword :=
  ActorRole.all.map declare ++
    [autonumber, title, accTitle, accDescription, activate, deactivate, note] ++
    BlockKind.all.map opening ++ SectionKind.all.map divider ++ [closing]

def word : Keyword → String
  | declare role => role.name
  | autonumber => "autonumber"
  | title => "title"
  | accTitle => "accTitle"
  | accDescription => "accDescr"
  | activate => "activate"
  | deactivate => "deactivate"
  | note => "note"
  | opening kind => kind.name
  | divider kind => kind.word
  | closing => "end"

end Keyword

inductive Complaint
  | missingHeader
  | missingParticipant
  | missingAccTitleColon
  | missingAccDescription
  | unterminatedAccDescription
  | missingActor
  | missingPlacement
  | missingNoteActor
  | missingSecondNoteActor
  | missingNoteColon
  | missingTarget
  | unrecognized (excerpt : String)
  | unexpected (excerpt : String)
  | outsideBlock (kind : SectionKind)
  | nothingToEnd
  | unclosedBlock (kind : BlockKind)
  deriving DecidableEq, Repr

def Complaint.message : Complaint → String
  | missingHeader => "expected `sequenceDiagram`"
  | missingParticipant => "expected a participant name"
  | missingAccTitleColon => "expected `:` after `accTitle`"
  | missingAccDescription => "expected `:` or `\x7b` after `accDescr`"
  | unterminatedAccDescription => "unterminated `accDescr \x7b` block; missing `\x7d`"
  | missingActor => "expected an actor name"
  | missingPlacement => "expected `left of`, `right of` or `over` after `Note`"
  | missingNoteActor => "expected an actor name in note"
  | missingSecondNoteActor => "expected a second actor name after `,`"
  | missingNoteColon => "missing `:` before note text"
  | missingTarget => "expected a target actor after the arrow"
  | unrecognized excerpt => "unrecognized statement `" ++ excerpt ++ "`"
  | unexpected excerpt => "unexpected `" ++ excerpt ++ "`"
  | outsideBlock kind =>
      "`" ++ kind.word ++ "` outside of an `" ++ kind.block.name ++ "` block"
  | nothingToEnd => "`end` without an open block"
  | unclosedBlock kind => "unclosed `" ++ kind.name ++ "` block; missing `end`"

end SequenceChart
