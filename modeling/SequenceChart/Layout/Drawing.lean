import SequenceChart.Geometry.Bounds
import SequenceChart.Layout.Basic
import SequenceChart.Measure.Basic
import SequenceChart.Settings.Basic

/-!
# Drawings

A drawing grows downwards, event by event. It keeps the bounds of what is drawn, the activations
that have started but not ended, and the blocks that are open; for each open block there is an open
scope of the bounds.
-/

namespace SequenceChart

/-- What a drawing is made with. -/
structure Pen (α : Type) where
  settings : SequenceSettings α
  measurer : Measurer α
  actorStyle : TextStyle α
  messageStyle : TextStyle α
  noteStyle : TextStyle α

def Settings.textStyle {α : Type} (settings : Settings α) (fontSize : α) : TextStyle α :=
  { fontFamily := settings.fontFamily
    fontSize
    fontWeight := settings.fontWeight.map FontWeight.text }

def Pen.ofSettings {α : Type} (settings : Settings α) (measurer : Measurer α) : Pen α :=
  { settings := settings.sequence
    measurer
    actorStyle := settings.textStyle settings.sequence.actorFontSize
    messageStyle := settings.textStyle settings.sequence.messageFontSize
    noteStyle := settings.textStyle settings.sequence.noteFontSize }

structure OpenActivation (α : Type) where
  actor : String
  depth : Nat
  startX : α
  startY : α
  stopX : α

structure OpenBlock where
  kind : BlockKind
  label : String
  sectionLabels : List String

structure Drawing (α ε : Type) where
  bounds : Bounds α ε
  actors : List (PlacedActor α)
  messages : List (PlacedMessage α)
  notes : List (PlacedNote α)
  activations : List (PlacedActivation α)
  blocks : List (PlacedBlock α ε)
  /-- The activations that have not ended, the latest first. -/
  openActivations : List (OpenActivation α)
  /-- The open blocks, the innermost first. -/
  openBlocks : List OpenBlock

variable {α ε : Type} [Scale α] [Edge ε] [Placing α ε]

def Pen.measure (pen : Pen α) (text : String) (style : TextStyle α) (wrap : Bool) (maxWidth : α) :
    TextMetrics α :=
  if wrap then pen.measurer.measureWrapped text style maxWidth
  else pen.measurer.measure text style

/-- How far a message to the own actor reaches to each side at least. -/
def selfReach : α := 100.0

/-- The height of the loop that a message to the own actor takes. -/
def selfHeight : α := 30.0

/-- The height that is kept free above an arrow or the end of an activation. -/
def arrowHeight : α := 10.0

/-- An activation that ends sooner is stretched. -/
def leastActivation : α := 18.0

/-- The height that a title takes. -/
def titleHeight : α := 40.0

/-- The box between two positions. -/
def boxAt (x1 y1 x2 y2 : α) : Box ε :=
  .ofCorners (place x1) (place y1) (place x2) (place y2)

namespace Drawing

def start (margin : α) : Drawing α ε :=
  { bounds := .start margin, actors := [], messages := [], notes := [], activations := [],
    blocks := [], openActivations := [], openBlocks := [] }

def cursor (drawing : Drawing α ε) : α :=
  drawing.bounds.cursor

def advance (drawing : Drawing α ε) (distance : α) : Drawing α ε :=
  { drawing with bounds := drawing.bounds.advance distance }

def insert (drawing : Drawing α ε) (box : Box ε) : Drawing α ε :=
  { drawing with bounds := drawing.bounds.insert box }

def actorWidth (pen : Pen α) (actor : Actor) : α :=
  if actor.wrap then pen.settings.width
  else
    let text := pen.measurer.measure actor.description pen.actorStyle
    Scale.larger pen.settings.width (text.width + 2.0 * pen.settings.wrapPadding)

/-- Places the actors side by side, from `x` on. -/
def placeActors (pen : Pen α) (y : α) (x : α) : List Actor → List (PlacedActor α)
  | [] => []
  | actor :: rest =>
      let width := actorWidth pen actor
      { name := actor.name, description := actor.description, role := actor.role, x, y, width,
        height := pen.settings.height } ::
        placeActors pen y (x + (width + pen.settings.actorMargin)) rest

def actorBox (actor : PlacedActor α) : Box ε :=
  boxAt actor.x actor.y (actor.x + actor.width) (actor.y + actor.height)

def insertActors (drawing : Drawing α ε) (actors : List (PlacedActor α)) : Drawing α ε :=
  actors.foldl (fun drawing actor => drawing.insert (actorBox actor)) drawing

def drawActors (pen : Pen α) (actors : List Actor) : Drawing α ε :=
  let drawing : Drawing α ε := start pen.settings.boxMargin
  let placed := placeActors pen drawing.cursor 0.0 actors
  ({ drawing with actors := placed }.insertActors placed).advance pen.settings.height

def actor (drawing : Drawing α ε) (name : String) : Except LayoutError (PlacedActor α) :=
  match drawing.actors.find? (·.name = name) with
  | some actor => .ok actor
  | none => .error (.unknownActor name)

/-- From the start of the first actor to the end of the last one. -/
def actorSpan (drawing : Drawing α ε) : α × α :=
  let start := (drawing.actors.head?.map PlacedActor.x).getD 0.0
  (start, (drawing.actors.getLast?.map fun actor => actor.x + actor.width).getD start)

/-- The open activations of an actor, the earliest first. -/
def openOf (drawing : Drawing α ε) (name : String) : List (OpenActivation α) :=
  (drawing.openActivations.filter (·.actor = name)).reverse

/-- An actor's line, widened by its open activations. -/
def lineSpan (drawing : Drawing α ε) (name : String) : Except LayoutError (α × α) := do
  let center := (← drawing.actor name).center
  let activations := drawing.openOf name
  return (activations.foldl (fun left activation => Scale.smaller left activation.startX) center,
    activations.foldl (fun right activation => Scale.larger right activation.stopX) center)

def startActivation (pen : Pen α) (drawing : Drawing α ε) (name : String) :
    Except LayoutError (Drawing α ε) := do
  let center := (← drawing.actor name).center
  let depth := (drawing.openOf name).length
  let startX := center + ((Scale.natural depth - 1.0) * pen.settings.activationWidth) / 2.0
  let activation : OpenActivation α :=
    { actor := name, depth, startX, startY := drawing.cursor + 2.0
      stopX := startX + pen.settings.activationWidth }
  return { drawing with openActivations := activation :: drawing.openActivations }

def OpenActivation.stop (activation : OpenActivation α) (y : α) : PlacedActivation α :=
  { actor := activation.actor, startX := activation.startX, startY := activation.startY,
    stopX := activation.stopX, stopY := y, depth := activation.depth }

/-- An activation that ends at the cursor. A short one begins above the cursor and ends below it. -/
def finishActivation (activation : OpenActivation α) (cursor : α) : PlacedActivation α :=
  if Scale.less cursor (activation.startY + leastActivation) then
    OpenActivation.stop { activation with startY := cursor - 6.0 } (cursor + 12.0)
  else OpenActivation.stop activation cursor

def addActivation (drawing : Drawing α ε) (placed : PlacedActivation α) : Drawing α ε :=
  { drawing with activations := drawing.activations ++ [placed] }

/-- Ends the latest open activation of the actor. -/
def endActivation (drawing : Drawing α ε) (name : String) : Drawing α ε :=
  match drawing.openActivations.find? (·.actor = name) with
  | none => drawing
  | some activation =>
      let placed := finishActivation activation drawing.cursor
      let rest := drawing.openActivations.eraseP (·.actor = name)
      let box := boxAt placed.startX (placed.stopY - arrowHeight) placed.stopX placed.stopY
      ({ drawing with openActivations := rest }.insert box).addActivation placed

/-- Where an arrow leaves one line and meets another. -/
def arrowSpan (source target : α × α) : α × α :=
  if Scale.less source.1 target.1 then (source.2, target.1) else (source.1, target.2)

def drawMessage (pen : Pen α) (drawing : Drawing α ε) (message : Message) :
    Except LayoutError (Drawing α ε) := do
  let drawing := drawing.advance pen.settings.messageMargin
  let source ← drawing.lineSpan message.source
  let target ← drawing.lineSpan message.target
  let (startX, stopX) := arrowSpan source target
  let span := Scale.larger (Scale.magnitude (stopX - startX)) pen.settings.width
  let text := pen.measure message.text pen.messageStyle message.wrap
    (span - 2.0 * pen.settings.wrapPadding)
  let toSelf : Bool := message.source = message.target
  let drawing := if toSelf then drawing.advance selfHeight else drawing
  let reach := if toSelf then Scale.larger (text.width / 2.0) selfReach else 0.0
  let y := drawing.cursor
  let box :=
    if toSelf then boxAt (startX - reach) (y - arrowHeight) (stopX + reach) y
    else boxAt startX (y - arrowHeight) stopX y
  let placed : PlacedMessage α :=
    { kind := message.kind, source := message.source, target := message.target,
      text := message.text, startX, stopX, y, toSelf, textWidth := text.width,
      textHeight := text.height, sequenceNumber := message.sequenceNumber }
  return { drawing.insert box with messages := drawing.messages ++ [placed] }

/-- The left end and the width of a note. -/
def noteSpan (settings : SequenceSettings α) (placement : NotePlacement)
    (first second : PlacedActor α) : α × α :=
  match placement with
  | .rightOf => (first.x + (first.width + settings.actorMargin) / 2.0, settings.width)
  | .leftOf => (first.x - (first.width + settings.actorMargin) / 2.0, settings.width)
  | .across =>
      if first.name = second.name then (first.x, settings.width)
      else
        let width := Scale.magnitude (first.x - second.x) + settings.actorMargin
        ((first.x + second.x + settings.width - width) / 2.0, width)

def drawNote (pen : Pen α) (drawing : Drawing α ε) (note : Note) :
    Except LayoutError (Drawing α ε) := do
  let drawing := drawing.advance pen.settings.boxMargin
  let y := drawing.cursor
  let (x, width) := noteSpan pen.settings note.placement (← drawing.actor note.first)
    (← drawing.actor note.second)
  let text := pen.measure note.text pen.noteStyle note.wrap (width - 2.0 * pen.settings.noteMargin)
  let height := text.height + 2.0 * pen.settings.noteMargin
  let placed : PlacedNote α :=
    { placement := note.placement, first := note.first, second := note.second, text := note.text,
      x, y, width, height }
  let drawing := (drawing.insert (boxAt x y (x + width) (y + height))).advance height
  return { drawing with notes := drawing.notes ++ [placed] }

/-- The distance below a marker that has a label. -/
def labelledGap (settings : SequenceSettings α) : α :=
  settings.boxMargin + settings.boxTextMargin

def openBlock (pen : Pen α) (drawing : Drawing α ε) (kind : BlockKind) (label : String) :
    Drawing α ε :=
  let drawing := drawing.advance pen.settings.boxMargin
  let drawing := { drawing with bounds := drawing.bounds.openScope }
  let gap := if kind = .rect then pen.settings.boxMargin else labelledGap pen.settings
  let block : OpenBlock := { kind, label, sectionLabels := [] }
  { drawing.advance gap with openBlocks := block :: drawing.openBlocks }

def divideBlock (pen : Pen α) (drawing : Drawing α ε) (kind : SectionKind) (label : String) :
    Except LayoutError (Drawing α ε) :=
  let drawing := drawing.advance (labelledGap pen.settings)
  match drawing.openBlocks with
  | [] => .error (.dividerOutsideBlock kind)
  | inner :: outer =>
      if inner.kind = kind.block then
        let divided := { inner with sectionLabels := inner.sectionLabels ++ [label] }
        let bounds := drawing.bounds.addSection?.getD drawing.bounds
        let drawing := { drawing with bounds, openBlocks := divided :: outer }
        .ok (drawing.advance pen.settings.boxMargin)
      else .error (.dividerOutsideBlock kind)

/-- The box of a closed block. A block in which nothing was drawn spans the row of the actors. -/
def blockBox (pen : Pen α) (drawing : Drawing α ε) (extent : Box ε) : Box ε :=
  let (start, stop) := drawing.actorSpan
  { extent with
    startX := place (start - pen.settings.boxMargin)
    stopX := place (stop + pen.settings.boxMargin) }

def placeBlock (block : OpenBlock) (sections : List α) (bounds : Box ε) : PlacedBlock α ε :=
  { kind := block.kind
    label := block.label
    sections := sections.zipWith (fun y label => { y, label }) block.sectionLabels
    bounds }

def closeBlock (pen : Pen α) (drawing : Drawing α ε) (kind : BlockKind) :
    Except LayoutError (Drawing α ε) :=
  match drawing.openBlocks, drawing.bounds.closeScope? with
  | inner :: outer, some (scope, bounds) =>
      if inner.kind = kind then
        let drawing := { drawing with bounds, openBlocks := outer }
        let isBlank := Edge.less scope.extent.stopX scope.extent.startX
        let box := if isBlank then drawing.blockBox pen scope.extent else scope.extent
        let drawing :=
          if isBlank then
            drawing.insert (.ofCorners box.startX box.startY box.stopX box.stopY)
          else drawing
        let blocks := drawing.blocks ++ [placeBlock inner scope.sections box]
        .ok <| { drawing with blocks }.advance pen.settings.boxMargin
      else .error (.otherBlockOpen kind inner.kind)
  | _, _ => .error (.nothingToClose kind)

def draw (pen : Pen α) (drawing : Drawing α ε) : Event → Except LayoutError (Drawing α ε)
  | .message message => drawing.drawMessage pen message
  | .note note => drawing.drawNote pen note
  | .activation .start actor => drawing.startActivation pen actor
  | .activation .stop actor => .ok (drawing.endActivation actor)
  | .block (.opening kind) label => .ok (drawing.openBlock pen kind (label.getD ""))
  | .block (.divider kind) label => drawing.divideBlock pen kind (label.getD "")
  | .block (.closing kind) _ => drawing.closeBlock pen kind

/-- Activations that have not ended go down to the cursor, ordered by the names of their actors. -/
def stopActivations (drawing : Drawing α ε) : Drawing α ε :=
  let y := drawing.cursor
  let remaining := drawing.openActivations.reverse.mergeSort fun left right =>
    left.actor ≤ right.actor
  remaining.foldl
    (fun drawing activation =>
      (drawing.insert (boxAt activation.startX activation.startY activation.stopX y)).addActivation
        (OpenActivation.stop activation y))
    { drawing with openActivations := [] }

/-- The actors once more at the bottom of the drawing, and the drawing with room for them. -/
def mirrorActors (pen : Pen α) (drawing : Drawing α ε) :
    List (PlacedActor α) × Drawing α ε :=
  let drawing := drawing.advance (2.0 * pen.settings.boxMargin)
  let mirrored := drawing.actors.map fun actor => { actor with y := drawing.cursor }
  (mirrored, (drawing.insertActors mirrored).advance pen.settings.height)

/-- The margins above and below the drawing, and the room for a title. -/
def addMargins (settings : SequenceSettings α) (title : Option String) (height : α) : α :=
  let height := height + 2.0 * settings.diagramMarginY
  let height :=
    if settings.mirrorActors then height - settings.boxMargin + settings.bottomMarginAdj else height
  if title.isSome then height + titleHeight else height

def finish (pen : Pen α) (drawing : Drawing α ε) (title : Option String) :
    Except LayoutError (Layout α ε) :=
  match drawing.openBlocks with
  | inner :: _ => .error (.unclosedBlock inner.kind)
  | [] =>
      let drawing := drawing.stopActivations
      let (mirroredActors, drawing) :=
        if pen.settings.mirrorActors then drawing.mirrorActors pen else ([], drawing)
      let bounds := drawing.bounds.whole
      .ok
        { actors := drawing.actors, mirroredActors, messages := drawing.messages,
          notes := drawing.notes, activations := drawing.activations, blocks := drawing.blocks,
          title, bounds
          width := bounds.width + 2.0 * pen.settings.diagramMarginX
          height := addMargins pen.settings title bounds.height }

end Drawing

/-- Lays out a diagram. -/
def Diagram.layout (diagram : Diagram) (settings : Settings α) (measurer : Measurer α) :
    Except LayoutError (Layout α ε) := do
  let pen := Pen.ofSettings settings measurer
  let drawing ← diagram.events.foldlM (Drawing.draw pen) (Drawing.drawActors pen diagram.actors)
  drawing.finish pen diagram.title

end SequenceChart
