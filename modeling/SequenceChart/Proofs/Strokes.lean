import SequenceChart.Layout.Drawing
import SequenceChart.Stepwise

/-!
# Strokes

What each event makes of a drawing. An event that is drawn moves the cursor, inserts a box that
reaches down to the cursor, and adds what it places to the drawing; what is said of whole drawings
follows from these equations, event by event.
-/

namespace SequenceChart

variable {α ε : Type} [Scale α] [Edge ε] [Placing α ε]

namespace Drawing

variable {pen : Pen α} {drawing later : Drawing α ε}

/-- Of the bounds, only the extents change. -/
theorem insertActors_eq (drawing : Drawing α ε) (placed : List (PlacedActor α)) :
    ∃ bounds : Bounds α ε, bounds.margin = drawing.bounds.margin ∧
      bounds.cursor = drawing.bounds.cursor ∧
      bounds.scopes.map Scope.sections = drawing.bounds.scopes.map Scope.sections ∧
      drawing.insertActors placed = { drawing with bounds } := by
  unfold insertActors
  induction placed generalizing drawing with
  | nil => exact ⟨drawing.bounds, rfl, rfl, rfl, rfl⟩
  | cons actor rest ih =>
      obtain ⟨bounds, hmargin, hcursor, hsections, hinserted⟩ :=
        ih (drawing.insert (actorBox actor))
      exact ⟨bounds, hmargin, hcursor, hsections.trans List.map_map, hinserted⟩

/-- A drawing begins with the actors, and with the cursor below them. -/
theorem drawActors_eq (pen : Pen α) (actors : List Actor) :
    ∃ bounds : Bounds α ε, bounds.margin = pen.settings.boxMargin ∧
      bounds.cursor = 0.0 + pen.settings.height ∧ bounds.scopes = [] ∧
      drawActors pen actors = { start pen.settings.boxMargin with
        actors := placeActors pen 0.0 0.0 actors, bounds } := by
  obtain ⟨bounds, hmargin, hcursor, hsections, hinserted⟩ :=
    insertActors_eq ({ start pen.settings.boxMargin with
      actors := placeActors pen 0.0 0.0 actors } : Drawing α ε) (placeActors pen 0.0 0.0 actors)
  refine ⟨bounds.advance pen.settings.height, hmargin, congrArg (· + _) hcursor,
    List.map_eq_nil_iff.mp hsections, ?_⟩
  exact congrArg (Drawing.advance · pen.settings.height) hinserted

omit [Edge ε] [Placing α ε] in
theorem startActivation_eq_ok {name : String}
    (hdraw : drawing.startActivation pen name = .ok later) :
    ∃ (actor : PlacedActor α) (activation : OpenActivation α), drawing.actor name = .ok actor ∧
      activation.actor = name ∧ activation.startY = drawing.cursor + 2.0 ∧
      later = { drawing with openActivations := activation :: drawing.openActivations } := by
  obtain ⟨actor, hactor, hlater⟩ := Except.bind_eq_ok.mp hdraw
  exact ⟨actor, _, hactor, rfl, rfl, (Except.ok.inj hlater).symm⟩

theorem endActivation_of_find? {name : String} {activation : OpenActivation α}
    (hfound : drawing.openActivations.find? (·.actor = name) = some activation) :
    ∃ placed : PlacedActivation α, placed = finishActivation activation drawing.cursor ∧
      drawing.endActivation name =
        ({ drawing with
            openActivations := drawing.openActivations.eraseP (·.actor = name) }.insert
          (boxAt placed.startX (placed.stopY - arrowHeight) placed.stopX
            placed.stopY)).addActivation placed := by
  unfold endActivation
  rw [hfound]
  exact ⟨_, rfl, rfl⟩

/-- A message from one end of the span to the other. -/
def messageAt (message : Message) (span : α × α) (y : α) (text : TextMetrics α) :
    PlacedMessage α :=
  { kind := message.kind, source := message.source, target := message.target, text := message.text,
    startX := span.1, stopX := span.2, y, toSelf := message.source = message.target,
    textWidth := text.width, textHeight := text.height, sequenceNumber := message.sequenceNumber }

/-- An arrow takes the span between two lines. One that goes back to its own line reaches further to
both sides, and further down. -/
theorem drawMessage_eq_ok {message : Message}
    (hdraw : drawing.drawMessage pen message = .ok later) :
    ∃ (source target : α × α) (text : TextMetrics α) (down : Drawing α ε) (box : Box ε),
      (drawing.advance pen.settings.messageMargin).lineSpan message.source = .ok source ∧
      (drawing.advance pen.settings.messageMargin).lineSpan message.target = .ok target ∧
      (message.source = message.target ∧
          down = (drawing.advance pen.settings.messageMargin).advance selfHeight ∧
          box = boxAt ((arrowSpan source target).1 - Scale.larger (text.width / 2.0) selfReach)
            (down.cursor - arrowHeight)
            ((arrowSpan source target).2 + Scale.larger (text.width / 2.0) selfReach) down.cursor ∨
        message.source ≠ message.target ∧ down = drawing.advance pen.settings.messageMargin ∧
          box = boxAt (arrowSpan source target).1 (down.cursor - arrowHeight)
            (arrowSpan source target).2 down.cursor) ∧
      later = { down.insert box with
        messages := drawing.messages ++
          [messageAt message (arrowSpan source target) down.cursor text] } := by
  obtain ⟨source, hsource, hdraw⟩ := Except.bind_eq_ok.mp hdraw
  obtain ⟨target, htarget, hdraw⟩ := Except.bind_eq_ok.mp hdraw
  rw [← Except.ok.inj hdraw]
  dsimp only
  by_cases hself : message.source = message.target
  · simp only [if_pos (decide_eq_true hself)]
    exact ⟨source, target, _, _, _, hsource, htarget, .inl ⟨hself, rfl, rfl⟩, rfl⟩
  · simp only [if_neg (mt of_decide_eq_true hself)]
    exact ⟨source, target, _, _, _, hsource, htarget, .inr ⟨hself, rfl, rfl⟩, rfl⟩

/-- A note that takes the span, from its left end on. -/
def noteAt (note : Note) (span : α × α) (y height : α) : PlacedNote α :=
  { placement := note.placement, first := note.first, second := note.second, text := note.text,
    x := span.1, y, width := span.2, height }

theorem drawNote_eq_ok {note : Note} (hdraw : drawing.drawNote pen note = .ok later) :
    ∃ (span : α × α) (height maxWidth : α),
      height = (pen.measure note.text pen.noteStyle note.wrap maxWidth).height +
        2.0 * pen.settings.noteMargin ∧
      later = { ((drawing.advance pen.settings.boxMargin).insert
          (boxAt span.1 (drawing.advance pen.settings.boxMargin).cursor (span.1 + span.2)
            ((drawing.advance pen.settings.boxMargin).cursor + height))).advance height with
        notes := drawing.notes ++
          [noteAt note span (drawing.advance pen.settings.boxMargin).cursor height] } := by
  obtain ⟨first, -, hdraw⟩ := Except.bind_eq_ok.mp hdraw
  obtain ⟨second, -, hdraw⟩ := Except.bind_eq_ok.mp hdraw
  exact ⟨noteSpan pen.settings note.placement first second, _, _, rfl,
    (Except.ok.inj hdraw).symm⟩

/-- Which span a note takes depends on the places of its actors. -/
theorem drawNote_span {note : Note} (hdraw : drawing.drawNote pen note = .ok later) :
    ∃ (placed : PlacedNote α) (first second : PlacedActor α),
      later.notes = drawing.notes ++ [placed] ∧ drawing.actor placed.first = .ok first ∧
      drawing.actor placed.second = .ok second ∧
      (placed.x, placed.width) = noteSpan pen.settings placed.placement first second := by
  obtain ⟨first, hfirst, hdraw⟩ := Except.bind_eq_ok.mp hdraw
  obtain ⟨second, hsecond, hdraw⟩ := Except.bind_eq_ok.mp hdraw
  rw [← Except.ok.inj hdraw]
  exact ⟨_, first, second, rfl, hfirst, hsecond, rfl⟩

theorem divideBlock_eq_ok {kind : SectionKind} {label : String}
    (hdraw : drawing.divideBlock pen kind label = .ok later) :
    ∃ inner outer, drawing.openBlocks = inner :: outer ∧ inner.kind = kind.block ∧
      later = ({ drawing.advance (labelledGap pen.settings) with
        bounds := (drawing.advance (labelledGap pen.settings)).bounds.addSection?.getD
          (drawing.advance (labelledGap pen.settings)).bounds
        openBlocks := { inner with sectionLabels := inner.sectionLabels ++ [label] } :: outer } :
          Drawing α ε).advance pen.settings.boxMargin := by
  unfold divideBlock at hdraw
  dsimp only at hdraw
  split at hdraw
  · cases hdraw
  · rename_i inner outer hopen
    split at hdraw
    · rename_i hkind
      exact ⟨inner, outer, hopen, hkind, (Except.ok.inj hdraw).symm⟩
    · cases hdraw

/-- The box of a block is the extent of its scope, unless nothing was drawn inside. Then the box is
still to be inserted. -/
theorem closeBlock_eq_ok {kind : BlockKind} (hdraw : drawing.closeBlock pen kind = .ok later) :
    ∃ inner outer scope rest box bounds, drawing.openBlocks = inner :: outer ∧
      inner.kind = kind ∧ drawing.bounds.closeScope? = some (scope, rest) ∧
      (Edge.less scope.extent.stopX scope.extent.startX = false ∧ box = scope.extent ∧
          bounds = rest ∨
        Edge.less scope.extent.stopX scope.extent.startX = true ∧
          box = drawing.blockBox pen scope.extent ∧
          bounds = rest.insert (.ofCorners box.startX box.startY box.stopX box.stopY)) ∧
      later = ({ drawing with
        bounds, openBlocks := outer,
        blocks := drawing.blocks ++ [placeBlock inner scope.sections box] } :
          Drawing α ε).advance pen.settings.boxMargin := by
  unfold closeBlock at hdraw
  split at hdraw
  · rename_i inner outer scope rest hopen hclose
    split at hdraw
    · rename_i hkind
      rw [← Except.ok.inj hdraw]
      cases hblank : Edge.less scope.extent.stopX scope.extent.startX with
      | true =>
          simp only [if_true]
          exact ⟨inner, outer, scope, rest, _, _, hopen, hkind, hclose, .inr ⟨hblank, rfl, rfl⟩,
            rfl⟩
      | false =>
          simp only [Bool.false_eq_true, if_false]
          exact ⟨inner, outer, scope, rest, _, _, hopen, hkind, hclose,
            .inl ⟨hblank, rfl, rfl⟩, rfl⟩
    · cases hdraw
  · cases hdraw

/-- Other events leave the activations as they are. -/
theorem draw_activations {event : Event} (hplain : ∀ edge name, event ≠ .activation edge name)
    (hdraw : drawing.draw pen event = .ok later) :
    later.openActivations = drawing.openActivations ∧
      later.activations = drawing.activations := by
  cases event with
  | activation edge name => exact absurd rfl (hplain edge name)
  | message message =>
      obtain ⟨source, target, text, down, box, -, -, hdown, rfl⟩ := drawMessage_eq_ok hdraw
      rcases hdown with ⟨-, rfl, -⟩ | ⟨-, rfl, -⟩ <;> exact ⟨rfl, rfl⟩
  | note note =>
      obtain ⟨span, height, maxWidth, -, rfl⟩ := drawNote_eq_ok hdraw
      exact ⟨rfl, rfl⟩
  | block marker label =>
      cases marker with
      | opening kind =>
          rw [← Except.ok.inj hdraw]
          exact ⟨rfl, rfl⟩
      | divider kind =>
          obtain ⟨inner, outer, -, -, rfl⟩ := divideBlock_eq_ok hdraw
          exact ⟨rfl, rfl⟩
      | closing kind =>
          obtain ⟨inner, outer, scope, rest, box, bounds, -, -, -, -, rfl⟩ := closeBlock_eq_ok hdraw
          exact ⟨rfl, rfl⟩

/-- What every event keeps, as it is drawn, holds at the end. -/
theorem drawAll_induction {motive : List Event → Drawing α ε → Prop} {all : List Event}
    (hstep : ∀ {before event} {drawing later : Drawing α ε}, before ++ [event] <+: all →
      motive before drawing → drawing.draw pen event = .ok later →
      motive (before ++ [event]) later)
    {events more : List Event} (hall : events ++ more = all) (hstart : motive events drawing)
    (hdraw : more.foldlM (draw pen) drawing = .ok later) : motive all later := by
  induction more generalizing drawing events with
  | nil =>
      rw [← Except.ok.inj hdraw, ← hall, List.append_nil]
      exact hstart
  | cons event rest ih =>
      rw [List.foldlM_cons] at hdraw
      rw [List.append_cons] at hall
      obtain ⟨next, hnext, hdraw⟩ := Except.bind_eq_ok.mp hdraw
      exact ih hall (hstep ⟨rest, hall⟩ hstart hnext) hdraw

omit [Scale α] in
/-- Only the activations and the bounds change. -/
theorem stopActivations_eq (drawing : Drawing α ε) :
    ∃ bounds activations, drawing.stopActivations =
      { drawing with bounds, activations, openActivations := [] } := by
  unfold stopActivations
  dsimp only
  generalize drawing.openActivations.reverse.mergeSort _ = remaining
  generalize drawing.cursor = y
  have hstop : ∀ (start : Drawing α ε), ∃ bounds activations,
      remaining.foldl (fun drawing activation =>
        (drawing.insert
          (boxAt activation.startX activation.startY activation.stopX y)).addActivation
          (OpenActivation.stop activation y)) start = { start with bounds, activations } := by
    induction remaining with
    | nil => exact fun start => ⟨start.bounds, start.activations, rfl⟩
    | cons activation rest ih => exact fun start => ih _
  exact hstop { drawing with openActivations := [] }

/-- The activations that have not ended, in the order in which they are stopped. -/
def leftovers (drawing : Drawing α ε) : List (OpenActivation α) :=
  drawing.openActivations.reverse.mergeSort fun left right => left.actor ≤ right.actor

omit [Scale α] in
/-- The activations that are left open come after those that have ended. -/
theorem stopActivations_activations (drawing : Drawing α ε) :
    drawing.stopActivations.activations =
      drawing.activations ++ drawing.leftovers.map (OpenActivation.stop · drawing.cursor) := by
  have hstop (y : α) (remaining : List (OpenActivation α)) (start : Drawing α ε) :
      (remaining.foldl (fun drawing activation =>
        (drawing.insert (boxAt activation.startX activation.startY activation.stopX
          y)).addActivation (OpenActivation.stop activation y)) start).activations =
        start.activations ++ remaining.map (OpenActivation.stop · y) := by
    induction remaining generalizing start with
    | nil => exact (List.append_nil _).symm
    | cons activation rest ih =>
        rw [List.foldl_cons, ih, List.map_cons, List.append_cons]
        rfl
  exact hstop drawing.cursor drawing.leftovers { drawing with openActivations := [] }

theorem mirrorActors_eq (pen : Pen α) (drawing : Drawing α ε) :
    ∃ bounds y, drawing.mirrorActors pen =
      (drawing.actors.map fun actor => { actor with y }, { drawing with bounds }) := by
  unfold mirrorActors
  dsimp only
  generalize hmoved : drawing.advance (2.0 * pen.settings.boxMargin) = moved
  obtain ⟨bounds, -, -, -, hinserted⟩ := insertActors_eq moved
    (moved.actors.map fun actor => { actor with y := moved.cursor })
  rw [hinserted, ← hmoved]
  exact ⟨_, _, rfl⟩

theorem finish_eq_ok {title : Option String} {layout : Layout α ε}
    (hfinish : drawing.finish pen title = .ok layout) :
    drawing.openBlocks = [] ∧ ∃ mirrored final,
      (if pen.settings.mirrorActors then drawing.stopActivations.mirrorActors pen
        else ([], drawing.stopActivations)) = (mirrored, final) ∧
      layout =
        { actors := final.actors, mirroredActors := mirrored, messages := final.messages,
          notes := final.notes, activations := final.activations, blocks := final.blocks, title
          bounds := final.bounds.whole
          width := final.bounds.whole.width + 2.0 * pen.settings.diagramMarginX
          height := addMargins pen.settings title final.bounds.whole.height } := by
  unfold finish at hfinish
  split at hfinish
  · cases hfinish
  · exact ⟨‹_›, _, _, rfl, (Except.ok.inj hfinish).symm⟩

/-- What has been drawn stays as it is. -/
theorem finish_keeps {title : Option String} {layout : Layout α ε}
    (hfinish : drawing.finish pen title = .ok layout) :
    layout.actors = drawing.actors ∧ layout.messages = drawing.messages ∧
      layout.notes = drawing.notes ∧ layout.blocks = drawing.blocks ∧
      layout.activations = drawing.stopActivations.activations ∧
      ∃ y, layout.mirroredActors =
        if pen.settings.mirrorActors then drawing.actors.map fun actor => { actor with y }
        else [] := by
  obtain ⟨-, mirrored, final, hfinal, rfl⟩ := finish_eq_ok hfinish
  obtain ⟨bounds, activations, hstopped⟩ := stopActivations_eq drawing
  obtain ⟨mirroredBounds, y, hmirrored⟩ := mirrorActors_eq pen drawing.stopActivations
  rw [hmirrored, hstopped] at hfinal
  rw [hstopped]
  by_cases hmirror : pen.settings.mirrorActors = true
  · rw [if_pos hmirror] at hfinal
    obtain ⟨rfl, rfl⟩ := Prod.mk.inj hfinal
    exact ⟨rfl, rfl, rfl, rfl, rfl, y, (if_pos hmirror).symm⟩
  · rw [if_neg hmirror] at hfinal
    obtain ⟨rfl, rfl⟩ := Prod.mk.inj hfinal
    exact ⟨rfl, rfl, rfl, rfl, rfl, y, (if_neg hmirror).symm⟩

end Drawing

/-- A layout is a drawing that is finished. -/
theorem Diagram.exists_drawing {diagram : Diagram} {settings : Settings α} {measurer : Measurer α}
    {layout : Layout α ε} (hlayout : diagram.layout settings measurer = .ok layout) :
    ∃ drawing : Drawing α ε,
      diagram.events.foldlM (Drawing.draw (Pen.ofSettings settings measurer))
        (Drawing.drawActors (Pen.ofSettings settings measurer) diagram.actors) = .ok drawing ∧
      drawing.finish (Pen.ofSettings settings measurer) diagram.title = .ok layout :=
  Except.bind_eq_ok.mp hlayout

end SequenceChart
