import SequenceChart.Diagram.Basic
import SequenceChart.Settings.Basic

/-!
# Charts

A diagram together with the settings it is laid out with. The settings say whether a text without a
marker is wrapped, at the moment when the text is added.
-/

namespace SequenceChart

structure Chart where
  diagram : Diagram
  settings : Settings Float

namespace Chart

def withSettings (settings : Settings Float) : Chart :=
  { diagram := .empty, settings }

def empty : Chart :=
  withSettings .standard

/-- Forgets the diagram and the settings. -/
def clear (_chart : Chart) : Chart :=
  empty

def wrapEnabled (chart : Chart) : Bool :=
  chart.settings.wrapEnabled

/-- Affects what is added from now on. -/
def setWrap (chart : Chart) (wrap : Bool) : Chart :=
  { chart with settings := chart.settings.setWrap wrap }

def addActor (chart : Chart) (id : String) (label : Option String) : Chart :=
  { chart with diagram := chart.diagram.addActor chart.wrapEnabled id label }

def declareActor (chart : Chart) (id : String) (label : Option String) (role : ActorRole) :
    Chart :=
  { chart with diagram := chart.diagram.declareActor chart.wrapEnabled id label role }

def addMessage (chart : Chart) (source target : String) (kind : MessageKind) (text : String) :
    Chart :=
  { chart with diagram := chart.diagram.addMessage chart.wrapEnabled source target kind text }

def activate (chart : Chart) (id : String) : Chart :=
  { chart with diagram := chart.diagram.activate chart.wrapEnabled id }

def deactivate? (chart : Chart) (id : String) : Option Chart :=
  (chart.diagram.deactivate? id).map fun diagram => { chart with diagram }

def addNote (chart : Chart) (placement : NotePlacement) (first : String) (second : Option String)
    (text : String) : Chart :=
  { chart with diagram := chart.diagram.addNote chart.wrapEnabled placement first second text }

def addBlockMarker (chart : Chart) (marker : BlockMarker) (label : Option String) : Chart :=
  { chart with diagram := chart.diagram.addBlockMarker marker label }

def setTitle (chart : Chart) (title : String) : Chart :=
  { chart with diagram := chart.diagram.setTitle title }

def setAccTitle (chart : Chart) (title : String) : Chart :=
  { chart with diagram := chart.diagram.setAccTitle title }

def setAccDescription (chart : Chart) (description : String) : Chart :=
  { chart with diagram := chart.diagram.setAccDescription description }

def enableAutonumber (chart : Chart) : Chart :=
  { chart with diagram := chart.diagram.enableAutonumber }

end Chart

/-- The message about an activation that cannot end. -/
def inactiveMessage (actor : String) : String :=
  "Trying to inactivate an inactive participant (" ++ actor ++ ")"

end SequenceChart
