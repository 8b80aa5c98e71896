import SequenceChart.Proofs.Brackets
import SequenceChart.Proofs.Enclosure
import SequenceChart.Proofs.Runs

/-!
# Growth of a drawing

From event to event the bounds only grow, and the cursor only goes down. A block has its scope from
its opening marker to its closing marker, and is placed when it is closed.
-/

namespace SequenceChart

def Event.isOpening : Event → Bool
  | block (.opening _) _ => true
  | _ => false

/-- Blocks, as brackets among the events. -/
def blockBrackets : Brackets where
  opens := Event.isOpening
  closes := Event.isClosing
  apart := by
    intro event hopens
    cases event with
    | message | note | activation => rfl
    | block marker label =>
        cases marker with
        | opening | divider => rfl
        | closing => cases hopens

theorem Event.exists_opening {event : Event} (hopens : event.isOpening = true) :
    ∃ kind label, event = .block (.opening kind) label := by
  cases event with
  | message | note | activation => cases hopens
  | block marker label =>
      cases marker with
      | opening kind => exact ⟨kind, label, rfl⟩
      | divider | closing => cases hopens

theorem Event.exists_closing {event : Event} (hcloses : event.isClosing = true) :
    ∃ kind label, event = .block (.closing kind) label := by
  cases event with
  | message | note | activation => cases hcloses
  | block marker label =>
      cases marker with
      | opening | divider => cases hcloses
      | closing kind => exact ⟨kind, label, rfl⟩

namespace Drawing

variable {drawing later : Drawing ℚ ExactEdge} {pen : Pen ℚ} {event : Event}

/-- The margin of the bounds is the one that the settings ask for, and no extent is infinite
outwards. -/
structure Steady (pen : Pen ℚ) (drawing : Drawing ℚ ExactEdge) : Prop where
  margin : drawing.bounds.margin = pen.settings.boxMargin
  tame : drawing.bounds.Tame

theorem Steady.grow (hsteady : drawing.Steady pen)
    (hgrows : drawing.bounds.Grows later.bounds) : later.Steady pen :=
  ⟨hgrows.margin.trans hsteady.margin, hgrows.tame hsteady.tame⟩

theorem Steady.margin_nonneg (hsteady : drawing.Steady pen) (hpen : pen.NonNegative) :
    0 ≤ drawing.bounds.margin :=
  (hpen.settings .boxMargin).trans hsteady.margin.ge

theorem Steady.tame_closed (hsteady : drawing.Steady pen) (hpen : pen.NonNegative)
    {closed : ExactScope} {rest : ExactBounds}
    (hclose : drawing.bounds.closeScope? = some (closed, rest)) : closed.Tame :=
  (hsteady.tame.closeScope (hsteady.margin_nonneg hpen) hclose).1

theorem Steady.grows_closeBlock (hsteady : drawing.Steady pen) (hpen : pen.NonNegative)
    {kind : BlockKind} (hdraw : drawing.closeBlock pen kind = .ok later) :
    drawing.bounds.Grows later.bounds := by
  obtain ⟨inner, outer, scope, rest, box, bounds, -, -, hclose, hbounds, rfl⟩ :=
    closeBlock_eq_ok hdraw
  have hclosed := Bounds.grows_closeScope (hsteady.margin_nonneg hpen) hclose
  refine Bounds.Grows.trans ?_ (Bounds.grows_advance _ (hpen.settings .boxMargin))
  rcases hbounds with ⟨-, -, rfl⟩ | ⟨-, rfl, rfl⟩
  · exact hclosed
  · have htame := hsteady.tame_closed hpen hclose
    exact hclosed.trans (Bounds.grows_insert _ (bounded_blockBox drawing pen htame))

theorem Steady.grows_draw (hsteady : drawing.Steady pen) (hpen : pen.NonNegative)
    (hdraw : drawing.draw pen event = .ok later) : drawing.bounds.Grows later.bounds := by
  have hmoved := drawing.bounds.grows_advance (hpen.settings .boxMargin)
  cases event with
  | message message =>
      obtain ⟨bounds, placed, startX, stopX, hgrows, -, -, rfl⟩ := drawMessage_inserts hpen hdraw
      exact hgrows.trans (Bounds.grows_insert _ (Box.bounded_boxAt ..))
  | note note =>
      obtain ⟨span, height, maxWidth, hheight, rfl⟩ := drawNote_eq_ok hdraw
      have hdown : 0 ≤ height := hheight ▸ noteHeight_nonneg hpen _ _ _
      exact (hmoved.trans (Bounds.grows_insert _ (Box.bounded_boxAt ..))).trans
        (Bounds.grows_advance _ hdown)
  | activation edge name =>
      cases edge with
      | start =>
          obtain ⟨actor, activation, -, -, -, rfl⟩ := startActivation_eq_ok hdraw
          exact .refl _
      | stop =>
          rw [← Except.ok.inj hdraw, endActivation]
          split
          · exact .refl _
          · exact Bounds.grows_insert _ (Box.bounded_boxAt ..)
  | block marker label =>
      cases marker with
      | opening kind =>
          rw [← Except.ok.inj hdraw]
          exact (hmoved.trans (Bounds.grows_openScope _)).trans
            (Bounds.grows_advance _ (openingGap_nonneg hpen kind))
      | divider kind =>
          obtain ⟨inner, outer, -, -, rfl⟩ := divideBlock_eq_ok hdraw
          exact ((Bounds.grows_advance _ (labelledGap_nonneg hpen)).trans
            (Bounds.grows_addSection _)).trans (Bounds.grows_advance _ (hpen.settings .boxMargin))
      | closing kind => exact hsteady.grows_closeBlock hpen hdraw

theorem Steady.grows_drawAll (hsteady : drawing.Steady pen) (hpen : pen.NonNegative)
    {events : List Event} (hdraw : events.foldlM (Drawing.draw pen) drawing = .ok later) :
    drawing.bounds.Grows later.bounds :=
  drawAll_induction (motive := fun _ later => drawing.bounds.Grows later.bounds)
    (fun _ hgrows hdraw => hgrows.trans ((hsteady.grow hgrows).grows_draw hpen hdraw))
    (List.nil_append events) (.refl drawing.bounds) hdraw

theorem steady_drawActors (pen : Pen ℚ) (actors : List Actor) :
    (drawActors pen actors : Drawing ℚ ExactEdge).Steady pen := by
  obtain ⟨bounds, hinserted, hgrows, -⟩ := insertActors_grows
    ({ start pen.settings.boxMargin with actors := placeActors pen (0.0 : ℚ) (0.0 : ℚ) actors } :
      Drawing ℚ ExactEdge) (placeActors pen (0.0 : ℚ) (0.0 : ℚ) actors)
  have hdrawn : (drawActors pen actors : Drawing ℚ ExactEdge) =
      ({ start pen.settings.boxMargin with
          actors := placeActors pen (0.0 : ℚ) (0.0 : ℚ) actors
          bounds } : Drawing ℚ ExactEdge).advance pen.settings.height :=
    congrArg (Drawing.advance · pen.settings.height) hinserted
  rw [hdrawn]
  exact ⟨hgrows.margin, (hgrows.tame (Bounds.tame_start _)).advance _⟩

end Drawing

namespace Pen

variable {pen : Pen ℚ} {actors : List Actor} {before more : List Event}
  {drawing later : Drawing ℚ ExactEdge}

theorem steady_drawAfter (hpen : pen.NonNegative)
    (hdrawing : pen.drawAfter actors before = .ok drawing) : drawing.Steady pen := by
  have hstart := Drawing.steady_drawActors pen actors
  exact hstart.grow (hstart.grows_drawAll hpen hdrawing)

theorem cursor_le_drawAfter (hpen : pen.NonNegative)
    (hdrawing : pen.drawAfter actors before = .ok drawing)
    (hlater : pen.drawAfter actors (before ++ more) = .ok later) :
    drawing.cursor ≤ later.cursor := by
  obtain ⟨same, hsame, hrest⟩ := drawAfter_append.mp hlater
  obtain rfl := Except.ok.inj (hdrawing.symm.trans hsame)
  exact ((steady_drawAfter hpen hdrawing).grows_drawAll hpen hrest).cursor

end Pen

/-- A block as it is closed, and shown by the layout. -/
theorem Diagram.exists_closeBlock {diagram : Diagram} {settings : Settings ℚ}
    {measurer : Measurer ℚ} {layout : Layout ℚ ExactEdge}
    (hlayout : diagram.layout settings measurer = .ok layout)
    (pair : blockBrackets.Pair diagram.events) :
    ∃ (drawing later : Drawing ℚ ExactEdge) (kind : BlockKind),
      (Pen.ofSettings settings measurer).drawAfter diagram.actors pair.filled = .ok drawing ∧
        drawing.closeBlock (Pen.ofSettings settings measurer) kind = .ok later ∧
        (Pen.ofSettings settings measurer).drawAfter diagram.actors
          (pair.filled ++ [pair.closing]) = .ok later ∧
        drawing.ShownBy layout ∧ later.ShownBy layout := by
  obtain ⟨drawing, later, hdrawing, hdraw, hlater, hshown⟩ :=
    Diagram.exists_draw hlayout pair.events_eq_filled
  have hearlier := (Drawing.extends_draw hdraw).shownBy hshown
  obtain ⟨kind, label, hclosing⟩ := Event.exists_closing pair.closes
  rw [hclosing] at hdraw
  exact ⟨drawing, later, kind, hdrawing, hdraw, hlater, hearlier, hshown⟩

end SequenceChart
