import SequenceChart.Chart
import SequenceChart.Grammar.Script
import SequenceChart.Source.Basic
import SequenceChart.Stepwise

/-!
# Sessions

The statements of a script are carried out on a chart, one after the other. A wrapping switch takes
effect before the first statement that does not start before it. When a statement fails, what was
carried out before stays in the chart.
-/

namespace SequenceChart

inductive Fault
  | complaint (complaint : Complaint)
  | inactive (actor : String)
  deriving DecidableEq, Repr

structure ReadingError where
  position : Position
  fault : Fault
  deriving DecidableEq, Repr

def Position.text (position : Position) : String :=
  "line " ++ toString position.line ++ ", column " ++ toString position.column

def ReadingError.message (error : ReadingError) : String :=
  match error.fault with
  | .complaint complaint =>
      "Syntax error at " ++ error.position.text ++ ": " ++ complaint.message
  | .inactive actor => inactiveMessage actor ++ " at " ++ error.position.text

structure Session where
  chart : Chart
  /-- The switches that have not taken effect, in order. -/
  switches : List WrapSwitch
  /-- The open blocks with the offsets of their statements, the innermost first. -/
  openBlocks : List (BlockKind × Nat)

namespace Session

/-- Lets the leading switches that stand no later than `offset` take effect. -/
def passSwitches (offset : Nat) : Chart → List WrapSwitch → Chart × List WrapSwitch
  | chart, [] => (chart, [])
  | chart, switch :: rest =>
      if switch.offset ≤ offset then passSwitches offset (chart.setWrap switch.enabled) rest
      else (chart, switch :: rest)

def reach (session : Session) (offset : Nat) : Session :=
  let (chart, switches) := passSwitches offset session.chart session.switches
  { session with chart, switches }

def withChart (session : Session) (chart : Chart) : Session × Option Fault :=
  ({ session with chart }, none)

def deactivate (session : Session) (actor : String) : Session × Option Fault :=
  match session.chart.deactivate? actor with
  | some chart => session.withChart chart
  | none => (session, some (.inactive actor))

def addMessage (session : Session) (source target : String) (kind : MessageKind)
    (edge : Option ActivationEdge) (text : String) : Session × Option Fault :=
  let chart := session.chart.addMessage source target kind text
  match edge with
  | none => session.withChart chart
  | some .start => session.withChart (chart.activate target)
  | some .stop => { session with chart }.deactivate source

def openBlock (session : Session) (offset : Nat) (kind : BlockKind) (label : String) : Session :=
  { session with
    chart := session.chart.addBlockMarker (.opening kind) (some label)
    openBlocks := (kind, offset) :: session.openBlocks }

/-- Only an innermost block of the right kind is divided. -/
def divideBlock (session : Session) (kind : SectionKind) (label : String) :
    Session × Option Fault :=
  if session.openBlocks.head?.map Prod.fst = some kind.block then
    session.withChart (session.chart.addBlockMarker (.divider kind) (some label))
  else (session, some (.complaint (.outsideBlock kind)))

def closeBlock (session : Session) : Session × Option Fault :=
  match session.openBlocks with
  | [] => (session, some (.complaint .nothingToEnd))
  | (kind, _) :: outer =>
      ({ session with
          chart := session.chart.addBlockMarker (.closing kind) none
          openBlocks := outer }, none)

def carryOut (session : Session) (offset : Nat) : Statement → Session × Option Fault
  | .declare role id label => session.withChart (session.chart.declareActor id label role)
  | .autonumber => session.withChart session.chart.enableAutonumber
  | .title text => session.withChart (session.chart.setTitle text)
  | .accTitle text => session.withChart (session.chart.setAccTitle text)
  | .accDescription text => session.withChart (session.chart.setAccDescription text)
  | .activate actor => session.withChart (session.chart.activate actor)
  | .deactivate actor => session.deactivate actor
  | .note placement first second text =>
      session.withChart (session.chart.addNote placement first second text)
  | .opening kind label => (session.openBlock offset kind label, none)
  | .divider kind label => session.divideBlock kind label
  | .closing => session.closeBlock
  | .message source target kind edge text => session.addMessage source target kind edge text

/-- Carries out a statement with its offset; a fault is told with the offset. -/
def step (session : Session) (item : Nat × Statement) : Session × Option (Nat × Fault) :=
  let (next, fault) := (session.reach item.1).carryOut item.1 item.2
  (next, fault.map fun fault => (item.1, fault))

/-- At the end of the text no block may be open. -/
def finish (session : Session) : Ending → Session × Option (Nat × Fault)
  | .complete offset =>
      (session.reach offset, session.openBlocks.head?.map fun (kind, start) =>
        (start, .complaint (.unclosedBlock kind)))
  | .unreadable offset complaint => (session.reach offset, some (offset, .complaint complaint))
  | .cluttered offset complaint => (session, some (offset, .complaint complaint))

def run (session : Session) (script : Script) : Session × Option (Nat × Fault) :=
  match runSteps step (session.reach script.header) script.statements with
  | (last, none) => last.finish script.ending
  | (last, some fault) => (last, some fault)

end Session

/-- Reads the code of a diagram into a chart. -/
def Chart.readCode (chart : Chart) (code : String) (switches : List WrapSwitch) :
    Chart × Option ReadingError :=
  let session := Session.mk chart switches []
  let (last, fault) := session.run (Script.read code.toList)
  (last.chart, fault.map fun (offset, fault) =>
    { position := Position.ofOffset code.toList offset, fault })

end SequenceChart
