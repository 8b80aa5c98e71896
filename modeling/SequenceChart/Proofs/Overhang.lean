import SequenceChart.Proofs.Spacing

/-!
# The lower row of the actors

Messages and notes end at the cursor or above it. Only a stretched activation hangs over, by a
constant, and takes the blocks around it along. When a block is closed, its lower edge and the
cursor go down by the same margin, so that the overhang does not add up, however deep the blocks are
nested. Two margins are kept free above the actors that are drawn once more at the bottom. If they
cover the overhang, these actors stand below everything else.
-/

namespace SequenceChart

theorem Hangs.le {margin cursor : ℚ} {activations : List (PlacedActivation ℚ)} {edge : ExactEdge}
    (hhangs : Hangs margin cursor activations edge) : edge ≤ place (cursor + 12) := by
  rcases hhangs with habove | ⟨_, -, -, -, hbelow⟩
  · exact habove.trans (place_le_place.mpr (by linarith))
  · exact hbelow

namespace Drawing

variable {drawing later : Drawing ℚ ExactEdge} {pen : Pen ℚ} {actors : List Actor}
  {events : List Event} {event : Event} {line lower : ℚ}

theorem finishActivation_le (activation : OpenActivation ℚ) (cursor : ℚ) :
    (finishActivation activation cursor).stopY ≤ cursor + 12 := by
  unfold finishActivation
  split
  · change cursor + (12.0 : ℚ) ≤ cursor + 12
    norm_num
  · change cursor ≤ cursor + 12
    linarith

theorem paces_drawAfter (hpen : pen.NonNegative) (hfollow : EndsFollowStarts events)
    (hdrawing : pen.drawAfter actors events = .ok drawing) : drawing.Paces events :=
  drawAll_induction (fun hbefore hpaces hdraw => hpaces.draw hpen (hfollow _ hbefore) hdraw)
    (List.nil_append _) (paces_drawActors _ _) hdrawing

/-- Messages and notes end above the line. Activations and blocks hang over by no more than an
activation is stretched below the cursor. -/
structure EndsBy (drawing : Drawing ℚ ExactEdge) (line : ℚ) : Prop where
  messages : ∀ message ∈ drawing.messages, message.y ≤ line
  notes : ∀ note ∈ drawing.notes, note.y + note.height ≤ line
  activations : ∀ activation ∈ drawing.activations, activation.stopY ≤ line + 12
  blocks : ∀ block ∈ drawing.blocks, block.bounds.stopY ≤ place (line + 12)

theorem EndsBy.mono (hends : drawing.EndsBy line) (hlower : line ≤ lower) :
    drawing.EndsBy lower where
  messages message hmem := (hends.messages message hmem).trans hlower
  notes note hmem := (hends.notes note hmem).trans hlower
  activations activation hmem :=
    (hends.activations activation hmem).trans (add_le_add_left hlower 12)
  blocks block hmem :=
    (hends.blocks block hmem).trans (place_le_place.mpr (add_le_add_left hlower 12))

theorem EndsBy.endActivation (hends : drawing.EndsBy drawing.cursor) (name : String) :
    (drawing.endActivation name).EndsBy (drawing.endActivation name).cursor := by
  unfold Drawing.endActivation
  split
  · exact hends
  · rename_i activation _
    have hfinished := finishActivation_le activation drawing.cursor
    exact { hends with
      activations := List.forall_mem_append.mpr
        ⟨hends.activations, List.forall_mem_singleton.mpr hfinished⟩ }

/-- The cursor goes down by the margin by which a block that is closed is widened. -/
theorem EndsBy.closeBlock (hends : drawing.EndsBy drawing.cursor) (hpen : pen.NonNegative)
    (hfollow : EndsFollowStarts events) (hdrawing : pen.drawAfter actors events = .ok drawing)
    {kind : BlockKind} (hdraw : drawing.closeBlock pen kind = .ok later) :
    later.EndsBy later.cursor := by
  have hmargin : 0 ≤ pen.settings.boxMargin := hpen.settings .boxMargin
  have hkept : drawing.EndsBy later.cursor :=
    hends.mono (cursor_closeBlock hdraw ▸ le_add_of_nonneg_right hmargin)
  obtain ⟨placed, _, _, hblocks, -, -, hfits, -⟩ :=
    (spaces_drawAfter hpen hfollow hdrawing).closeBlock hdrawing hpen hdraw
  have hplaced : ∀ block ∈ later.blocks, block.bounds.stopY ≤ place (later.cursor + 12) := by
    rw [hblocks]
    exact List.forall_mem_append.mpr
      ⟨hkept.blocks, List.forall_mem_singleton.mpr hfits.bottom.le⟩
  obtain ⟨inner, outer, scope, rest, box, bounds, -, -, -, -, rfl⟩ := closeBlock_eq_ok hdraw
  exact { hkept with blocks := hplaced }

theorem EndsBy.draw (hends : drawing.EndsBy drawing.cursor) (hpen : pen.NonNegative)
    (hfollow : EndsFollowStarts events) (hdrawing : pen.drawAfter actors events = .ok drawing)
    (hdraw : drawing.draw pen event = .ok later) : later.EndsBy later.cursor := by
  have hkept : drawing.EndsBy later.cursor :=
    hends.mono ((Pen.steady_drawAfter hpen hdrawing).grows_draw hpen hdraw).cursor
  cases event with
  | message message =>
      obtain ⟨source, target, text, down, box, -, -, hdown, rfl⟩ := drawMessage_eq_ok hdraw
      rcases hdown with ⟨-, rfl, -⟩ | ⟨-, rfl, -⟩ <;>
        exact { hkept with
          messages := List.forall_mem_append.mpr
            ⟨hkept.messages, List.forall_mem_singleton.mpr (le_refl _)⟩ }
  | note note =>
      obtain ⟨span, height, maxWidth, -, rfl⟩ := drawNote_eq_ok hdraw
      exact { hkept with
        notes := List.forall_mem_append.mpr
          ⟨hkept.notes, List.forall_mem_singleton.mpr (le_refl _)⟩ }
  | activation edge name =>
      cases edge with
      | start =>
          obtain ⟨actor, activation, -, -, -, rfl⟩ := startActivation_eq_ok hdraw
          exact { hkept with }
      | stop =>
          rw [← Except.ok.inj hdraw]
          exact hends.endActivation name
  | block marker label =>
      cases marker with
      | opening kind =>
          obtain rfl := Except.ok.inj hdraw
          exact { hkept with }
      | divider kind =>
          obtain ⟨inner, outer, -, -, rfl⟩ := divideBlock_eq_ok hdraw
          exact { hkept with }
      | closing kind => exact hends.closeBlock hpen hfollow hdrawing hdraw

theorem endsBy_drawAfter (hpen : pen.NonNegative) (hfollow : EndsFollowStarts events)
    (hdrawing : pen.drawAfter actors events = .ok drawing) : drawing.EndsBy drawing.cursor := by
  refine Pen.drawAfter_induction (motive := fun _ drawing => drawing.EndsBy drawing.cursor) ?_ ?_
    hdrawing
  · obtain ⟨bounds, -, -, -, hdrawn⟩ := drawActors_eq (ε := ExactEdge) pen actors
    rw [hdrawn]
    exact ⟨List.forall_mem_nil _, List.forall_mem_nil _, List.forall_mem_nil _,
      List.forall_mem_nil _⟩
  · intro before event drawing later hbefore hdrawing hends hdraw
    have hearlier := hfollow.of_isPrefix ((List.prefix_append before [event]).trans hbefore)
    exact hends.draw hpen hearlier hdrawing hdraw

theorem cursor_stopActivations (drawing : Drawing ℚ ExactEdge) :
    drawing.stopActivations.cursor = drawing.cursor := by
  have hstop (y : ℚ) (remaining : List (OpenActivation ℚ)) (start : Drawing ℚ ExactEdge) :
      (remaining.foldl (fun drawing activation =>
        (drawing.insert (boxAt activation.startX activation.startY activation.stopX
          y)).addActivation (OpenActivation.stop activation y)) start).cursor = start.cursor := by
    induction remaining generalizing start with
    | nil => rfl
    | cons activation rest ih => exact ih _
  exact hstop drawing.cursor drawing.leftovers { drawing with openActivations := [] }

/-- Between the cursor and the actors at the bottom two margins are kept free. -/
theorem finish_mirrors {title : Option String} {layout : Layout ℚ ExactEdge}
    (hmirror : pen.settings.mirrorActors = true)
    (hfinish : drawing.finish pen title = .ok layout) :
    layout.mirroredActors = drawing.actors.map fun actor =>
      { actor with y := drawing.cursor + 2.0 * pen.settings.boxMargin } := by
  obtain ⟨-, mirrored, final, hfinal, rfl⟩ := finish_eq_ok hfinish
  obtain ⟨bounds, activations, hstopped⟩ := stopActivations_eq drawing
  rw [if_pos hmirror] at hfinal
  change mirrored = _
  calc mirrored
      = drawing.stopActivations.actors.map fun actor =>
          { actor with
            y := drawing.stopActivations.cursor + 2.0 * pen.settings.boxMargin } :=
        (congrArg Prod.fst hfinal).symm
    _ = drawing.actors.map fun actor =>
          { actor with y := drawing.cursor + 2.0 * pen.settings.boxMargin } := by
        rw [cursor_stopActivations, hstopped]

/-- An activation begins and ends above the overhang, whether it has ended or is left open. -/
theorem activations_endBy (hends : drawing.EndsBy drawing.cursor) (hpaces : drawing.Paces events) :
    ∀ activation ∈ drawing.stopActivations.activations,
      activation.startY ≤ drawing.cursor + 12 ∧ activation.stopY ≤ drawing.cursor + 12 := by
  rw [stopActivations_activations]
  refine List.forall_mem_append.mpr ⟨fun activation hmem => ?_, fun activation hmem => ?_⟩
  · -- An activation that has ended is high enough to begin above its end.
    have hstop := hends.activations activation hmem
    have htall := hpaces.tall activation hmem
    constructor <;> linarith
  · obtain ⟨opened, hopened, rfl⟩ := List.mem_map.mp hmem
    have hbegun := hpaces.begun opened (drawing.leftovers_perm.mem_iff.mp hopened)
    change opened.startY ≤ drawing.cursor + 12 ∧ drawing.cursor ≤ drawing.cursor + 12
    constructor <;> linarith

end Drawing

/-- **The lower row of the actors.** If the actors are drawn once more at the bottom, and two
margins cover as much as an activation is stretched below the cursor, they stand below all messages,
notes, activations and blocks. -/
theorem Chart.Built.mirrored_below {chart : Chart} (hbuilt : chart.Built) {settings : Settings ℚ}
    (hsettings : settings.sequence.NonNegative) (hmirror : settings.sequence.mirrorActors = true)
    (hmargin : 6 ≤ settings.sequence.boxMargin) {measurer : Measurer ℚ}
    (hmeasurer : measurer.NonNegative) {layout : Layout ℚ ExactEdge}
    (hlayout : chart.diagram.layout settings measurer = .ok layout) :
    ∃ y, layout.mirroredActors = (layout.actors.map fun actor => { actor with y }) ∧
      (∀ message ∈ layout.messages, message.y ≤ y) ∧
      (∀ note ∈ layout.notes, note.y + note.height ≤ y) ∧
      (∀ activation ∈ layout.activations, activation.startY ≤ y ∧ activation.stopY ≤ y) ∧
      ∀ block ∈ layout.blocks, block.bounds.stopY ≤ place y := by
  have hpen : (Pen.ofSettings settings measurer).NonNegative := ⟨hsettings, hmeasurer⟩
  have hfollow := hbuilt.balanced.follow
  obtain ⟨drawing, hdrawing, hfinish⟩ := Diagram.exists_drawing hlayout
  have hends := Drawing.endsBy_drawAfter hpen hfollow hdrawing
  have hpaces := Drawing.paces_drawAfter hpen hfollow hdrawing
  have hcovers : drawing.cursor + 12 ≤ drawing.cursor + 2.0 * settings.sequence.boxMargin := by
    norm_num
    linarith
  have habove : drawing.cursor ≤ drawing.cursor + 2.0 * settings.sequence.boxMargin := by
    linarith
  obtain ⟨hactors, hmessages, hnotes, hblocks, hstopped, -⟩ := Drawing.finish_keeps hfinish
  refine ⟨drawing.cursor + 2.0 * settings.sequence.boxMargin, ?_, ?_, ?_, ?_, ?_⟩
  · rw [hactors]
    exact Drawing.finish_mirrors hmirror hfinish
  · rw [hmessages]
    exact (hends.mono habove).messages
  · rw [hnotes]
    exact (hends.mono habove).notes
  · rw [hstopped]
    intro activation hmem
    obtain ⟨hstart, hstop⟩ := Drawing.activations_endBy hends hpaces activation hmem
    exact ⟨hstart.trans hcovers, hstop.trans hcovers⟩
  · rw [hblocks]
    exact fun block hmem => (hends.blocks block hmem).trans (place_le_place.mpr hcovers)

/-- At the end an activation that ends at once, in two blocks. -/
def hanging : Chart :=
  Chart.empty.operateAll
    [.edit (.addActor "A" none), .edit (.addBlockMarker (.opening .loop) (some "often")),
      .edit (.addBlockMarker (.opening .opt) (some "maybe")), .edit (.activate "A"),
      .edit (.deactivate "A"), .edit (.addBlockMarker (.closing .opt) none),
      .edit (.addBlockMarker (.closing .loop) none)]

theorem built_hanging : hanging.Built :=
  Chart.Built.operateAll (.new .standard) _

theorem hanging_mirrored_below : ∃ layout : Layout ℚ ExactEdge,
    hanging.diagram.layout .exact Grid.standard.measurer = .ok layout ∧
      ∃ y, layout.mirroredActors = (layout.actors.map fun actor => { actor with y }) ∧
        (∀ activation ∈ layout.activations, activation.stopY ≤ y) ∧
        ∀ block ∈ layout.blocks, block.bounds.stopY ≤ place y := by
  obtain ⟨layout, hlayout⟩ : ∃ layout : Layout ℚ ExactEdge,
      hanging.diagram.layout .exact Grid.standard.measurer = .ok layout :=
    Diagram.layout_eq_ok built_hanging.balanced.registered rfl .exact Grid.standard.measurer
  have hmargin : (6 : ℚ) ≤ Settings.exact.sequence.boxMargin := by norm_num [Settings.exact]
  obtain ⟨y, hmirrored, -, -, hactivations, hblocks⟩ := built_hanging.mirrored_below
    Settings.nonNegative_exact rfl hmargin Grid.nonNegative_standard hlayout
  exact ⟨layout, hlayout, y, hmirrored, fun activation hmem => (hactivations activation hmem).2,
    hblocks⟩

end SequenceChart
