import SequenceChart.Proofs.Operations
import SequenceChart.Proofs.Wrapping

/-!
# Histories of charts

The history of a chart tells the settings that it was new with, and the edits since then. Every
operation comes down to edits: a reading to those of the statements that it carries out, up to the
one that fails, and of the switches that it passes. An operation that empties the chart starts its
history afresh.
-/

namespace SequenceChart

namespace Chart

def editAll (chart : Chart) (edits : List Edit) : Chart :=
  edits.foldl edit chart

end Chart

namespace Session

variable (session : Session)

/-- The edits by which a statement is carried out, as far as it is. -/
def edits : Statement → List Edit
  | .declare role id label => [.declareActor id label role]
  | .autonumber => [.enableAutonumber]
  | .title text => [.setTitle text]
  | .accTitle text => [.setAccTitle text]
  | .accDescription text => [.setAccDescription text]
  | .activate actor => [.activate actor]
  | .deactivate actor => [.deactivate actor]
  | .note placement first second text => [.addNote placement first second text]
  | .opening kind label => [.addBlockMarker (.opening kind) (some label)]
  | .divider kind label =>
      if session.openBlocks.head?.map Prod.fst = some kind.block then
        [.addBlockMarker (.divider kind) (some label)]
      else []
  | .closing =>
      match session.openBlocks with
      | [] => []
      | (kind, _) :: _ => [.addBlockMarker (.closing kind) none]
  | .message source target kind edge text =>
      .addMessage source target kind text ::
        match edge with
        | none => []
        | some .start => [.activate target]
        | some .stop => [.deactivate source]

/-- The edits of the switches that take effect where `offset` is reached. -/
def reachEdits (offset : Nat) : List Edit :=
  (session.switches.takeWhile (·.offset ≤ offset)).map fun switch => .setWrap switch.enabled

def stepEdits (item : Nat × Statement) : List Edit :=
  session.reachEdits item.1 ++ (session.reach item.1).edits item.2

/-- The edits of statements that are carried out one after the other, up to the one that fails. -/
def stepsEdits (session : Session) : List (Nat × Statement) → List Edit
  | [] => []
  | item :: rest =>
      session.stepEdits item ++
        match session.step item with
        | (next, none) => next.stepsEdits rest
        | (_, some _) => []

def finishEdits : Ending → List Edit
  | .complete offset | .unreadable offset _ => session.reachEdits offset
  | .cluttered _ _ => []

def runEdits (script : Script) : List Edit :=
  let started := session.reach script.header
  session.reachEdits script.header ++ started.stepsEdits script.statements ++
    match runSteps step started script.statements with
    | (last, none) => last.finishEdits script.ending
    | (_, some _) => []

end Session

/-- The edits that reading the code of a diagram makes, also if it fails. -/
def Chart.codeEdits (chart : Chart) (code : String) (switches : List WrapSwitch) : List Edit :=
  (Session.mk chart switches []).runEdits (Script.read code.toList)

structure History where
  /-- The settings of the chart when it was new. -/
  settings : Settings Float
  edits : List Edit

namespace History

def new (settings : Settings Float) : History :=
  { settings, edits := [] }

def chart (history : History) : Chart :=
  (Chart.withSettings history.settings).editAll history.edits

def add (history : History) (edits : List Edit) : History :=
  { history with edits := history.edits ++ edits }

def readCode (history : History) (code : String) (switches : List WrapSwitch) : History :=
  history.add (history.chart.codeEdits code switches)

/-- A title of the source that is not empty is set before the code is read. -/
def readSource (settings : Settings Float) (source : Source) : History :=
  ((new settings).add ((source.title.filter (· ≠ "")).toList.map .setTitle)).readCode
    source.code source.switches

/-- Only a source whose settings apply gets as far as its code. -/
def parse (engine : Engine) (text : String) : History :=
  match Source.read text with
  | .error _ => new .standard
  | .ok source =>
      match engine.settingsFor source with
      | .error _ => new .standard
      | .ok settings => readSource settings source

def operate (history : History) : Operation → History
  | .edit edit => history.add [edit]
  | .clear => new .standard
  | .readCode code switches => history.readCode code switches
  | .parse engine text => parse engine text

def operateAll (history : History) (operations : List Operation) : History :=
  operations.foldl operate history

end History

end SequenceChart
