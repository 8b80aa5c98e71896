import SequenceChart.Engine
import SequenceChart.Layout.Drawing
import SequenceChart.Measure.Grid

/-!
# From a source to a layout

A source is read and laid out with the settings that it was read with. Only diagrams of the one type
that is read can be laid out.
-/

namespace SequenceChart

structure RenderedDiagram where
  metadata : Metadata
  layout : Layout Float Float

def ParsedDiagram.layout (parsed : ParsedDiagram) (measurer : Measurer Float) :
    Except LayoutError RenderedDiagram := do
  if parsed.metadata.diagramType ≠ sequenceType then
    throw (.unsupportedType parsed.metadata.diagramType)
  let layout ← parsed.chart.diagram.layout parsed.metadata.settings measurer
  return { metadata := parsed.metadata, layout }

inductive RenderError
  | parse (error : Error)
  | layout (error : LayoutError)

structure Renderer where
  engine : Engine
  measurer : Measurer Float

namespace Renderer

def standard : Renderer :=
  { engine := .standard, measurer := Grid.standard.measurer }

def render (renderer : Renderer) (text : String) : Except RenderError RenderedDiagram :=
  match renderer.engine.parse text with
  | .error error => .error (.parse error)
  | .ok parsed =>
      match parsed.layout renderer.measurer with
      | .error error => .error (.layout error)
      | .ok rendered => .ok rendered

end Renderer

end SequenceChart
