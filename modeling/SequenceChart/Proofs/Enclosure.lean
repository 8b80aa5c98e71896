import SequenceChart.Proofs.Correspondence
import SequenceChart.Proofs.Extents

/-!
# Everything lies inside the bounds

What is drawn is not always what is inserted into the bounds. Of an activation only the last piece
is inserted, a message takes room above its line, and the box of a block comes from the scope that
is closed with it. Still everything that has been drawn is covered by the bounds: what an activation
has more than its last piece lies below the upper edge of the actors, which the cursor never gets
near to again.
-/

namespace SequenceChart

/-- The line of a message. -/
def PlacedMessage.segment (message : PlacedMessage ℚ) : Box ExactEdge :=
  boxAt message.startX message.y message.stopX message.y

def PlacedNote.box (note : PlacedNote ℚ) : Box ExactEdge :=
  boxAt note.x note.y (note.x + note.width) (note.y + note.height)

def PlacedActivation.box (activation : PlacedActivation ℚ) : Box ExactEdge :=
  boxAt activation.startX activation.startY activation.stopX activation.stopY

def PlacedBlock.box (block : PlacedBlock ℚ ExactEdge) : Box ExactEdge :=
  block.bounds.corners

/-- The boxes of everything drawn. -/
def Drawing.boxes (drawing : Drawing ℚ ExactEdge) : List (Box ExactEdge) :=
  drawing.actors.map Drawing.actorBox ++ drawing.messages.map PlacedMessage.segment ++
    drawing.notes.map PlacedNote.box ++ drawing.activations.map PlacedActivation.box ++
    drawing.blocks.map PlacedBlock.box

theorem Drawing.addActivation_boxes (drawing : Drawing ℚ ExactEdge)
    (placed : PlacedActivation ℚ) :
    (drawing.addActivation placed).boxes ⊆ placed.box :: drawing.boxes := by
  intro box hbox
  simp only [boxes, addActivation, List.map_append, List.mem_append, List.map_singleton,
    List.mem_cons] at hbox ⊢
  tauto

/-- The boxes of everything in a layout. -/
def Layout.boxes (layout : Layout ℚ ExactEdge) : List (Box ExactEdge) :=
  layout.actors.map Drawing.actorBox ++ layout.mirroredActors.map Drawing.actorBox ++
    layout.messages.map PlacedMessage.segment ++ layout.notes.map PlacedNote.box ++
    layout.activations.map PlacedActivation.box ++ layout.blocks.map PlacedBlock.box

/-- No length is negative. -/
def SequenceSettings.NonNegative (settings : SequenceSettings ℚ) : Prop :=
  ∀ key, 0 ≤ settings.length key

/-- No text has a negative width or height. -/
structure Measurer.NonNegative (measurer : Measurer ℚ) : Prop where
  measure : ∀ text style, 0 ≤ (measurer.measure text style).width ∧
    0 ≤ (measurer.measure text style).height
  measureWrapped : ∀ text style maxWidth,
    0 ≤ (measurer.measureWrapped text style maxWidth).width ∧
      0 ≤ (measurer.measureWrapped text style maxWidth).height

/-- Nothing that a pen draws with is negative. -/
structure Pen.NonNegative (pen : Pen ℚ) : Prop where
  settings : pen.settings.NonNegative
  measurer : pen.measurer.NonNegative

theorem Pen.NonNegative.measure_height {pen : Pen ℚ} (hpen : pen.NonNegative) (text : String)
    (style : TextStyle ℚ) (wrap : Bool) (maxWidth : ℚ) :
    0 ≤ (pen.measure text style wrap maxWidth).height := by
  unfold Pen.measure
  split
  · exact (hpen.measurer.measureWrapped text style maxWidth).2
  · exact (hpen.measurer.measure text style).2

/-- The later bounds come from the earlier ones without giving anything up. -/
structure Bounds.Grows (earlier later : ExactBounds) : Prop where
  margin : later.margin = earlier.margin
  cursor : earlier.cursor ≤ later.cursor
  whole : earlier.whole ≤ later.whole
  tame : earlier.Tame → later.Tame
  covers : ∀ {box}, earlier.Covers box → later.Covers box

namespace Bounds

theorem Grows.refl (bounds : ExactBounds) : bounds.Grows bounds :=
  ⟨rfl, le_refl _, le_refl _, id, id⟩

theorem Grows.trans {first second third : ExactBounds} (hfirst : first.Grows second)
    (hsecond : second.Grows third) : first.Grows third where
  margin := hsecond.margin.trans hfirst.margin
  cursor := hfirst.cursor.trans hsecond.cursor
  whole := hfirst.whole.trans hsecond.whole
  tame htame := hsecond.tame (hfirst.tame htame)
  covers hcovers := hsecond.covers (hfirst.covers hcovers)

theorem grows_insert (bounds : ExactBounds) {box : Box ExactEdge} (hbox : box.Bounded) :
    bounds.Grows (bounds.insert box) where
  margin := rfl
  cursor := le_refl _
  whole := le_sup_left
  tame htame := htame.insert hbox
  covers hcovers := hcovers.insert box

theorem grows_advance (bounds : ExactBounds) {distance : ℚ} (hdistance : 0 ≤ distance) :
    bounds.Grows (bounds.advance distance) where
  margin := rfl
  cursor := le_add_of_nonneg_right hdistance
  whole := whole_le_advance bounds distance
  tame htame := htame.advance distance
  covers hcovers := hcovers.advance distance

theorem grows_openScope (bounds : ExactBounds) : bounds.Grows bounds.openScope where
  margin := rfl
  cursor := le_refl _
  whole := le_refl _
  tame htame := htame.openScope
  covers hcovers := hcovers.openScope

theorem grows_addSection (bounds : ExactBounds) :
    bounds.Grows (bounds.addSection?.getD bounds) := by
  have hsame : (bounds.addSection?.getD bounds).margin = bounds.margin ∧
      (bounds.addSection?.getD bounds).cursor = bounds.cursor ∧
      (bounds.addSection?.getD bounds).whole = bounds.whole := by
    unfold addSection?
    split <;> exact ⟨rfl, rfl, rfl⟩
  exact
    { margin := hsame.1
      cursor := hsame.2.1.ge
      whole := hsame.2.2.ge
      tame := fun htame => htame.addSection
      covers := fun hcovers => hcovers.addSection }

theorem grows_closeScope {bounds rest : ExactBounds} {closed : ExactScope}
    (hmargin : 0 ≤ bounds.margin) (hclose : bounds.closeScope? = some (closed, rest)) :
    bounds.Grows rest := by
  have hsame : rest.margin = bounds.margin ∧ rest.cursor = bounds.cursor ∧
      bounds.whole ≤ rest.whole := by
    obtain ⟨inner, outer, -, -, rfl⟩ := closeScope?_eq_some hclose
    unfold includeInner
    split
    · exact ⟨rfl, rfl, le_sup_left⟩
    · exact ⟨rfl, rfl, le_refl _⟩
  exact
    { margin := hsame.1
      cursor := hsame.2.1.ge
      whole := hsame.2.2
      tame := fun htame => (htame.closeScope hmargin hclose).2
      covers := fun hcovers => hcovers.closeScope hmargin hclose }

end Bounds

namespace Drawing

variable {drawing later : Drawing ℚ ExactEdge} {pen : Pen ℚ} {box : Box ExactEdge}

/-- Everything drawn is covered. The cursor is far enough below the upper edge of the actors for an
activation to begin above it. -/
structure Contained (drawing : Drawing ℚ ExactEdge) : Prop where
  margin : 0 ≤ drawing.bounds.margin
  cursor : 6 ≤ drawing.cursor
  tame : drawing.bounds.Tame
  top : drawing.actors ≠ [] → drawing.bounds.whole.startY ≤ place (0 : ℚ)
  known : drawing.openActivations ≠ [] → drawing.actors ≠ []
  begun : ∀ activation ∈ drawing.openActivations, 0 ≤ activation.startY
  boxes : ∀ box ∈ drawing.boxes, drawing.bounds.Covers box

theorem Contained.grow (hcontained : drawing.Contained) {bounds : ExactBounds}
    (hgrows : drawing.bounds.Grows bounds) :
    ({ drawing with bounds } : Drawing ℚ ExactEdge).Contained where
  margin := hcontained.margin.trans hgrows.margin.ge
  cursor := hcontained.cursor.trans hgrows.cursor
  tame := hgrows.tame hcontained.tame
  top hactors := hgrows.whole.2.1.trans (hcontained.top hactors)
  known := hcontained.known
  begun := hcontained.begun
  boxes box hbox := hgrows.covers (hcontained.boxes box hbox)

theorem Contained.advance (hcontained : drawing.Contained) {distance : ℚ}
    (hdistance : 0 ≤ distance) : (drawing.advance distance).Contained :=
  hcontained.grow (drawing.bounds.grows_advance hdistance)

theorem Contained.insert (hcontained : drawing.Contained) (hbox : box.Bounded) :
    (drawing.insert box).Contained :=
  hcontained.grow (drawing.bounds.grows_insert hbox)

/-- One more thing, if it is covered. -/
theorem Contained.add (hcontained : drawing.Contained) (hbounds : later.bounds = drawing.bounds)
    (hactors : later.actors = drawing.actors)
    (hopen : later.openActivations = drawing.openActivations)
    (hboxes : later.boxes ⊆ box :: drawing.boxes) (hcovers : drawing.bounds.Covers box) :
    later.Contained where
  margin := hbounds ▸ hcontained.margin
  cursor := by
    unfold Drawing.cursor
    rw [hbounds]
    exact hcontained.cursor
  tame := hbounds ▸ hcontained.tame
  top := by
    rw [hbounds, hactors]
    exact hcontained.top
  known := by
    rw [hopen, hactors]
    exact hcontained.known
  begun := by
    rw [hopen]
    exact hcontained.begun
  boxes := by
    intro drawn hdrawn
    rw [hbounds]
    rcases List.mem_cons.mp (hboxes hdrawn) with rfl | hearlier
    · exact hcovers
    · exact hcontained.boxes drawn hearlier

theorem insertActors_grows (drawing : Drawing ℚ ExactEdge) (placed : List (PlacedActor ℚ)) :
    ∃ bounds, drawing.insertActors placed = { drawing with bounds } ∧
      drawing.bounds.Grows bounds ∧ ∀ actor ∈ placed, actorBox actor ≤ bounds.whole := by
  unfold insertActors
  induction placed generalizing drawing with
  | nil => exact ⟨drawing.bounds, rfl, .refl _, fun _ hmem => by cases hmem⟩
  | cons actor rest ih =>
      obtain ⟨bounds, hinserted, hgrows, hrest⟩ := ih (drawing.insert (actorBox actor))
      have hactor : actorBox actor ≤ (drawing.bounds.insert (actorBox actor)).whole := le_sup_right
      refine ⟨bounds, hinserted,
        (drawing.bounds.grows_insert (Box.bounded_boxAt ..)).trans hgrows, ?_⟩
      intro placed hmem
      rcases List.mem_cons.mp hmem with rfl | hmem
      · exact hactor.trans hgrows.whole
      · exact hrest placed hmem

theorem actors_ne_nil {name : String} {actor : PlacedActor ℚ}
    (hactor : drawing.actor name = .ok actor) : drawing.actors ≠ [] := by
  unfold Drawing.actor at hactor
  split at hactor
  · rename_i hfound
    exact List.ne_nil_of_mem (List.mem_of_find?_eq_some hfound)
  · cases hactor

theorem Contained.startActivation (hcontained : drawing.Contained) {name : String}
    (hdraw : drawing.startActivation pen name = .ok later) : later.Contained := by
  obtain ⟨actor, activation, hactor, -, hstart, rfl⟩ := startActivation_eq_ok hdraw
  have hcursor := hcontained.cursor
  refine { hcontained with known := fun _ => actors_ne_nil hactor, begun := ?_ }
  intro other hmem
  rcases List.mem_cons.mp hmem with rfl | hmem
  · rw [hstart]
    linarith
  · exact hcontained.begun other hmem

/-- Also a short activation begins no higher than at the upper edge of the actors. -/
theorem finishActivation_bounds {activation : OpenActivation ℚ} {cursor : ℚ}
    (hbegun : 0 ≤ activation.startY) (hcursor : 6 ≤ cursor) :
    0 ≤ (finishActivation activation cursor).startY ∧
      (finishActivation activation cursor).startY ≤ (finishActivation activation cursor).stopY := by
  unfold finishActivation
  split
  · change 0 ≤ cursor - (6.0 : ℚ) ∧ cursor - (6.0 : ℚ) ≤ cursor + (12.0 : ℚ)
    constructor <;> linarith
  · rename_i hlong
    have hlong : ¬ cursor < activation.startY + (18.0 : ℚ) := of_decide_eq_false
      (Bool.eq_false_of_not_eq_true hlong)
    refine ⟨hbegun, ?_⟩
    change activation.startY ≤ cursor
    linarith

/-- A line lies in the box that takes room above it. -/
theorem line_le (startX stopX y room : ℚ) :
    (boxAt startX y stopX y : Box ExactEdge) ≤ boxAt startX (y - room) stopX y := by
  rw [boxAt_le_boxAt_iff, min_self, max_self]
  exact ⟨le_refl _, min_le_right _ _, le_refl _, le_max_right _ _⟩

/-- If the whole begins high enough already, the last piece of a box is all that has to be inserted
of it. -/
theorem boxAt_le_insert {bounds : ExactBounds} {startX startY stopX stopY piece : ℚ}
    (htop : bounds.whole.startY ≤ place (0 : ℚ)) (hstart : 0 ≤ startY) (hstop : startY ≤ stopY) :
    boxAt startX startY stopX stopY ≤
      (bounds.insert (boxAt startX (stopY - piece) stopX stopY)).whole := by
  have hinserted : boxAt startX stopY stopX stopY ≤
      (bounds.insert (boxAt startX (stopY - piece) stopX stopY)).whole :=
    le_sup_of_le_right (line_le startX stopX stopY piece)
  have hupper : (bounds.insert (boxAt startX (stopY - piece) stopX stopY)).whole.startY ≤
      place startY :=
    (min_le_left _ _).trans (htop.trans (place_le_place.mpr hstart))
  rw [boxAt_eq, min_self, max_self] at hinserted
  rw [boxAt_eq, min_eq_left hstop, max_eq_right hstop]
  exact ⟨hinserted.1, hupper, hinserted.2.2⟩

theorem Contained.endActivation (hcontained : drawing.Contained) (name : String) :
    (drawing.endActivation name).Contained := by
  unfold Drawing.endActivation
  split
  · exact hcontained
  · rename_i activation hfound
    have hmem := List.mem_of_find?_eq_some hfound
    have hopen := hcontained.known (List.ne_nil_of_mem hmem)
    have hplaced :=
      finishActivation_bounds (hcontained.begun activation hmem) hcontained.cursor
    have hrest : ({ drawing with
        openActivations := drawing.openActivations.eraseP (·.actor = name) } :
          Drawing ℚ ExactEdge).Contained :=
      { hcontained with
        known := fun _ => hopen
        begun := fun other hother => hcontained.begun other (List.mem_of_mem_eraseP hother) }
    exact (hrest.insert (Box.bounded_boxAt ..)).add rfl rfl rfl (addActivation_boxes _ _)
      (.inl (boxAt_le_insert (hcontained.top hopen) hplaced.1 hplaced.2))

/-- The open activations widen a line to both sides. -/
theorem lineSpan_le {name : String} {span : ℚ × ℚ} (hspan : drawing.lineSpan name = .ok span) :
    span.1 ≤ span.2 := by
  have hleft (center : ℚ) (activations : List (OpenActivation ℚ)) :
      activations.foldl (fun left activation => Scale.smaller left activation.startX) center ≤
        center := by
    induction activations generalizing center with
    | nil => exact le_refl _
    | cons activation rest ih => exact (ih _).trans (min_le_left _ _)
  have hright (center : ℚ) (activations : List (OpenActivation ℚ)) :
      center ≤
        activations.foldl (fun right activation => Scale.larger right activation.stopX) center := by
    induction activations generalizing center with
    | nil => exact le_refl _
    | cons activation rest ih => exact (le_max_left _ _).trans (ih _)
  obtain ⟨actor, -, hspan⟩ := Except.bind_eq_ok.mp hspan
  rw [← Except.ok.inj hspan]
  exact (hleft _ _).trans (hright _ _)

theorem arrowSpan_self_le {span : ℚ × ℚ} (hspan : span.1 ≤ span.2) :
    (arrowSpan span span).1 ≤ (arrowSpan span span).2 := by
  unfold arrowSpan
  split
  · rename_i hless
    exact absurd (of_decide_eq_true hless) (lt_irrefl _)
  · exact hspan

theorem line_le_widened {startX stopX y reach : ℚ} (hspan : startX ≤ stopX) (hreach : 0 ≤ reach)
    (room : ℚ) :
    (boxAt startX y stopX y : Box ExactEdge) ≤
      boxAt (startX - reach) (y - room) (stopX + reach) y := by
  refine (line_le startX stopX y room).trans ?_
  rw [boxAt_le_boxAt_iff]
  have hleft : startX - reach ≤ startX := sub_le_self _ hreach
  have hright : stopX ≤ stopX + reach := le_add_of_nonneg_right hreach
  refine ⟨?_, le_refl _, ?_, le_refl _⟩
  · rw [min_eq_left hspan]
    exact (min_le_left _ _).trans hleft
  · rw [max_eq_right hspan]
    exact hright.trans (le_max_right _ _)

theorem Contained.addMessage (hcontained : drawing.Contained) {placed : PlacedMessage ℚ}
    (hbox : box.Bounded) (hle : placed.segment ≤ box) :
    ({ drawing.insert box with messages := drawing.messages ++ [placed] } :
      Drawing ℚ ExactEdge).Contained := by
  refine (hcontained.insert hbox).add rfl rfl rfl ?_ ((Bounds.covers_insert _ _).mono hle)
  intro box hbox
  simp only [Drawing.boxes, List.map_append, List.mem_append, List.map_singleton,
    List.mem_cons] at hbox ⊢
  tauto

/-- A message moves the cursor down and inserts a box above it, with the message's line inside. -/
theorem drawMessage_inserts (hpen : pen.NonNegative) {message : Message}
    (hdraw : drawing.drawMessage pen message = .ok later) :
    ∃ (bounds : ExactBounds) (placed : PlacedMessage ℚ) (startX stopX : ℚ),
      drawing.bounds.Grows bounds ∧ bounds.scopes = drawing.bounds.scopes ∧
      placed.segment ≤ boxAt startX (bounds.cursor - arrowHeight) stopX bounds.cursor ∧
      later = { ({ drawing with bounds } : Drawing ℚ ExactEdge).insert
          (boxAt startX (bounds.cursor - arrowHeight) stopX bounds.cursor) with
        messages := drawing.messages ++ [placed] } := by
  have hmoved := drawing.bounds.grows_advance (hpen.settings .messageMargin)
  obtain ⟨source, target, text, down, box, hsource, htarget, hdown, rfl⟩ := drawMessage_eq_ok hdraw
  rcases hdown with ⟨hself, rfl, rfl⟩ | ⟨-, rfl, rfl⟩
  · have hspan : (arrowSpan source target).1 ≤ (arrowSpan source target).2 := by
      rw [hself, htarget] at hsource
      rw [← Except.ok.inj hsource]
      exact arrowSpan_self_le (lineSpan_le htarget)
    have hreach : (0 : ℚ) ≤ selfReach := by norm_num [selfReach]
    have hheight : (0 : ℚ) ≤ selfHeight := by norm_num [selfHeight]
    exact ⟨((drawing.advance pen.settings.messageMargin).advance selfHeight).bounds,
      messageAt message (arrowSpan source target) _ text, _, _,
      hmoved.trans (Bounds.grows_advance _ hheight), rfl,
      line_le_widened hspan (hreach.trans (le_max_right _ _)) _, rfl⟩
  · exact ⟨(drawing.advance pen.settings.messageMargin).bounds,
      messageAt message (arrowSpan source target) _ text, _, _, hmoved, rfl, line_le .., rfl⟩

theorem Contained.drawMessage (hcontained : drawing.Contained) (hpen : pen.NonNegative)
    {message : Message} (hdraw : drawing.drawMessage pen message = .ok later) :
    later.Contained := by
  obtain ⟨bounds, placed, startX, stopX, hgrows, -, hle, rfl⟩ := drawMessage_inserts hpen hdraw
  exact (hcontained.grow hgrows).addMessage (Box.bounded_boxAt ..) hle

theorem noteHeight_nonneg (hpen : pen.NonNegative) (text : String) (wrap : Bool) (maxWidth : ℚ) :
    0 ≤ (pen.measure text pen.noteStyle wrap maxWidth).height + 2.0 * pen.settings.noteMargin := by
  have htext := hpen.measure_height text pen.noteStyle wrap maxWidth
  have hnoteMargin : 0 ≤ pen.settings.noteMargin := hpen.settings .noteMargin
  linarith

theorem Contained.drawNote (hcontained : drawing.Contained) (hpen : pen.NonNegative)
    {note : Note} (hdraw : drawing.drawNote pen note = .ok later) : later.Contained := by
  have hmoved := hcontained.advance (hpen.settings .boxMargin)
  obtain ⟨span, height, maxWidth, hheight, rfl⟩ := drawNote_eq_ok hdraw
  have hdown : 0 ≤ height := hheight ▸ noteHeight_nonneg hpen _ _ _
  refine ((hmoved.insert (Box.bounded_boxAt ..)).advance hdown).add rfl rfl rfl ?_
    ((Bounds.covers_insert _ _).advance _)
  intro box hbox
  simp only [Drawing.boxes, List.map_append, List.mem_append, List.map_singleton,
    List.mem_cons] at hbox ⊢
  tauto

theorem labelledGap_nonneg (hpen : pen.NonNegative) : 0 ≤ labelledGap pen.settings :=
  add_nonneg (hpen.settings .boxMargin) (hpen.settings .boxTextMargin)

theorem openingGap_nonneg (hpen : pen.NonNegative) (kind : BlockKind) :
    0 ≤ if kind = .rect then pen.settings.boxMargin else labelledGap pen.settings := by
  split
  · exact hpen.settings .boxMargin
  · exact labelledGap_nonneg hpen

theorem Contained.openBlock (hcontained : drawing.Contained) (hpen : pen.NonNegative)
    (kind : BlockKind) (label : String) : (drawing.openBlock pen kind label).Contained := by
  have hmargin : 0 ≤ pen.settings.boxMargin := hpen.settings .boxMargin
  have hopened := (hcontained.advance hmargin).grow (Bounds.grows_openScope _)
  exact { hopened.advance (openingGap_nonneg hpen kind) with }

theorem Contained.divideBlock (hcontained : drawing.Contained) (hpen : pen.NonNegative)
    {kind : SectionKind} {label : String} (hdraw : drawing.divideBlock pen kind label = .ok later) :
    later.Contained := by
  have hmoved := hcontained.advance (labelledGap_nonneg hpen)
  have hdivided := hmoved.grow (Bounds.grows_addSection _)
  have hdown := hdivided.advance (hpen.settings .boxMargin)
  obtain ⟨inner, outer, -, -, rfl⟩ := divideBlock_eq_ok hdraw
  exact { hdown with }

/-- A block in which something was drawn lies where its scope does. -/
theorem corners_extent {scope : ExactScope} (htame : scope.Tame)
    (hdrawn : ¬ scope.extent.stopX < scope.extent.startX) : scope.extent.corners = scope.extent :=
  Box.corners_eq_self (not_lt.mp hdrawn) (htame.startY.trans htame.stopY)

/-- A block in which nothing was drawn spans the actors, at the height of its scope. -/
theorem bounded_blockBox (drawing : Drawing ℚ ExactEdge) (pen : Pen ℚ) {scope : ExactScope}
    (htame : scope.Tame) : (drawing.blockBox pen scope.extent).corners.Bounded := by
  obtain ⟨startY, hstartY⟩ := ExactEdge.exists_place htame.bounded.startY
    (htame.startY.trans_lt (place_ne_top _).lt_top).ne
  obtain ⟨stopY, hstopY⟩ := ExactEdge.exists_place
    ((place_ne_bot _).bot_lt.trans_le htame.stopY).ne' htame.bounded.stopY
  have hcorners : (drawing.blockBox pen scope.extent).corners =
      boxAt (drawing.actorSpan.1 - pen.settings.boxMargin) startY
        (drawing.actorSpan.2 + pen.settings.boxMargin) stopY := by
    unfold Drawing.blockBox Box.corners boxAt
    rw [← hstartY, ← hstopY]
  rw [hcorners]
  exact Box.bounded_boxAt ..

theorem Contained.addBlock (hcontained : drawing.Contained) {placed : PlacedBlock ℚ ExactEdge}
    (hcovers : drawing.bounds.Covers placed.box) :
    ({ drawing with blocks := drawing.blocks ++ [placed] } : Drawing ℚ ExactEdge).Contained := by
  refine hcontained.add rfl rfl rfl ?_ hcovers
  intro box hbox
  simp only [Drawing.boxes, List.map_append, List.mem_append, List.map_singleton,
    List.mem_cons] at hbox ⊢
  tauto

theorem Contained.closeBlock (hcontained : drawing.Contained) (hpen : pen.NonNegative)
    {kind : BlockKind} (hdraw : drawing.closeBlock pen kind = .ok later) : later.Contained := by
  obtain ⟨inner, outer, scope, rest, box, bounds, -, -, hclose, hbounds, rfl⟩ :=
    closeBlock_eq_ok hdraw
  have htame := (hcontained.tame.closeScope hcontained.margin hclose).1
  have hrest := hcontained.grow (Bounds.grows_closeScope hcontained.margin hclose)
  have hclosed : ({ drawing with bounds := rest, openBlocks := outer } :
      Drawing ℚ ExactEdge).Contained := { hrest with }
  refine Contained.advance ?_ (hpen.settings .boxMargin)
  rcases hbounds with ⟨hdrawn, rfl, rfl⟩ | ⟨-, rfl, rfl⟩
  · refine hclosed.addBlock ?_
    unfold PlacedBlock.box
    rw [placeBlock, corners_extent htame (of_decide_eq_false hdrawn)]
    exact Bounds.covers_closed hclose
  · exact (hclosed.insert (bounded_blockBox drawing pen htame)).addBlock (Bounds.covers_insert _ _)

theorem Contained.draw (hcontained : drawing.Contained) (hpen : pen.NonNegative) {event : Event}
    (hdraw : drawing.draw pen event = .ok later) : later.Contained := by
  cases event with
  | message message => exact hcontained.drawMessage hpen hdraw
  | note note => exact hcontained.drawNote hpen hdraw
  | activation edge name =>
      cases edge with
      | start => exact hcontained.startActivation hdraw
      | stop =>
          rw [← Except.ok.inj hdraw]
          exact hcontained.endActivation name
  | block marker label =>
      cases marker with
      | opening kind =>
          rw [← Except.ok.inj hdraw]
          exact hcontained.openBlock hpen kind _
      | divider kind => exact hcontained.divideBlock hpen hdraw
      | closing kind => exact hcontained.closeBlock hpen hdraw

theorem Contained.drawAll (hcontained : drawing.Contained) (hpen : pen.NonNegative)
    {events : List Event} (hdraw : events.foldlM (Drawing.draw pen) drawing = .ok later) :
    later.Contained :=
  drawAll_induction (motive := fun _ drawing => drawing.Contained)
    (fun _ hcontained hdraw => hcontained.draw hpen hdraw) (List.nil_append events) hcontained hdraw

/-! ### The finished layout

No scope is open any more where the events end, so that everything that is covered lies in the
whole. What comes then, the activations that are left open and the actors at the bottom, is inserted
as it is drawn. -/

/-- Everything drawn lies inside the whole. -/
structure Enclosed (drawing : Drawing ℚ ExactEdge) : Prop where
  bounded : drawing.bounds.whole.Bounded
  boxes : ∀ box ∈ drawing.boxes, box ≤ drawing.bounds.whole

theorem Enclosed.advance (henclosed : drawing.Enclosed) (distance : ℚ) :
    (drawing.advance distance).Enclosed where
  bounded :=
    { henclosed.bounded with
      stopY := (max_lt henclosed.bounded.stopY.lt_top (place_ne_top _).lt_top).ne }
  boxes box hbox := (henclosed.boxes box hbox).trans (Bounds.whole_le_advance _ _)

theorem Enclosed.insert (henclosed : drawing.Enclosed) (hbox : box.Bounded) :
    (drawing.insert box).Enclosed where
  bounded := henclosed.bounded.sup hbox
  boxes drawn hdrawn := le_sup_of_le_left (henclosed.boxes drawn hdrawn)

theorem Enclosed.insertActors (henclosed : drawing.Enclosed) (placed : List (PlacedActor ℚ)) :
    (drawing.insertActors placed).Enclosed := by
  unfold Drawing.insertActors
  induction placed generalizing drawing with
  | nil => exact henclosed
  | cons actor rest ih => exact ih (henclosed.insert (Box.bounded_boxAt ..))

/-- An activation that has not ended is inserted as it is drawn. -/
theorem Enclosed.stopActivations (henclosed : drawing.Enclosed) :
    drawing.stopActivations.Enclosed := by
  unfold Drawing.stopActivations
  dsimp only
  generalize drawing.openActivations.reverse.mergeSort _ = remaining
  generalize drawing.cursor = y
  have hstart : ({ drawing with openActivations := [] } : Drawing ℚ ExactEdge).Enclosed :=
    { henclosed with }
  generalize ({ drawing with openActivations := [] } : Drawing ℚ ExactEdge) = start at hstart
  induction remaining generalizing start with
  | nil => exact hstart
  | cons activation rest ih =>
      refine ih _ ?_
      have hinserted := hstart.insert (Box.bounded_boxAt activation.startX activation.startY
        activation.stopX y)
      refine ⟨hinserted.bounded, fun box hbox => ?_⟩
      rcases List.mem_cons.mp (addActivation_boxes _ _ hbox) with rfl | hearlier
      · exact le_sup_right
      · exact hinserted.boxes box hearlier

theorem Enclosed.mirrorActors (henclosed : drawing.Enclosed) (pen : Pen ℚ) :
    (drawing.mirrorActors pen).2.Enclosed ∧
      ∀ actor ∈ (drawing.mirrorActors pen).1,
        actorBox actor ≤ (drawing.mirrorActors pen).2.bounds.whole := by
  unfold Drawing.mirrorActors
  dsimp only
  have hmoved := henclosed.advance (2.0 * pen.settings.boxMargin)
  generalize drawing.advance (2.0 * pen.settings.boxMargin) = moved at hmoved
  refine ⟨(hmoved.insertActors _).advance _, fun actor hmem => ?_⟩
  obtain ⟨bounds, hinserted, -, hplaced⟩ := insertActors_grows moved
    (moved.actors.map fun actor => { actor with y := moved.cursor })
  rw [hinserted]
  exact (hplaced actor hmem).trans (Bounds.whole_le_advance _ _)

theorem Enclosed.finish (henclosed : drawing.Enclosed) {title : Option String}
    {layout : Layout ℚ ExactEdge} (hfinish : drawing.finish pen title = .ok layout) :
    (∀ box ∈ layout.boxes, box ≤ layout.bounds) ∧ layout.bounds.Bounded := by
  obtain ⟨-, mirrored, final, hfinal, rfl⟩ := finish_eq_ok hfinish
  have hstopped := henclosed.stopActivations
  have hdrawn : final.Enclosed ∧ ∀ actor ∈ mirrored, actorBox actor ≤ final.bounds.whole := by
    split at hfinal
    · have hlast := hstopped.mirrorActors pen
      rwa [hfinal] at hlast
    · obtain ⟨rfl, rfl⟩ := Prod.mk.inj hfinal
      exact ⟨hstopped, List.forall_mem_nil _⟩
  refine ⟨fun box hbox => ?_, hdrawn.1.bounded⟩
  have hcases : box ∈ final.boxes ∨ box ∈ mirrored.map actorBox := by
    simp only [Layout.boxes, Drawing.boxes, List.mem_append] at hbox ⊢
    tauto
  rcases hcases with hbox | hbox
  · exact hdrawn.1.boxes box hbox
  · obtain ⟨actor, hmem, rfl⟩ := List.mem_map.mp hbox
    exact hdrawn.2 actor hmem

end Drawing

theorem Measurer.NonNegative.greedy {measure : String → TextStyle ℚ → TextMetrics ℚ}
    (hmeasure : ∀ text style, 0 ≤ (measure text style).width ∧ 0 ≤ (measure text style).height) :
    (Measurer.greedy measure).NonNegative := by
  refine ⟨hmeasure, fun text style maxWidth => ?_⟩
  have hwidth (width : ℚ) (metrics : List (TextMetrics ℚ)) :
      width ≤ metrics.foldl (fun width line => Scale.larger width line.width) width := by
    induction metrics generalizing width with
    | nil => exact le_refl _
    | cons line rest ih => exact (le_max_left _ _).trans (ih _)
  have hheight (height : ℚ) (lines : List String) (hstart : 0 ≤ height) :
      0 ≤ (lines.map (measure · style)).foldl (fun height line => height + line.height) height := by
    induction lines generalizing height with
    | nil => exact hstart
    | cons line rest ih => exact ih _ (add_nonneg hstart (hmeasure line style).2)
  have hzero : (0 : ℚ) = (0.0 : ℚ) := by norm_num
  exact ⟨hzero.trans_le (hwidth _ _), hheight _ _ hzero.le⟩

/-- Measuring on a grid of columns and lines gives no negative sizes. -/
theorem Grid.measurer_nonNegative {grid : Grid ℚ} (hcharWidth : 0 ≤ grid.charWidth)
    (hlineHeight : 0 ≤ grid.lineHeight) : grid.measurer.NonNegative := by
  refine .greedy fun text style => ?_
  have hfactor {chosen usual : ℚ} (hchosen : 0 ≤ chosen) (husual : 0 ≤ usual) :
      0 ≤ factor chosen usual := by
    unfold factor
    split
    · exact husual
    · exact hchosen
  have hfontSize : 0 ≤ Scale.larger style.fontSize 1.0 :=
    (by norm_num : (0 : ℚ) ≤ 1.0).trans (le_max_right _ _)
  exact ⟨mul_nonneg (mul_nonneg (Nat.cast_nonneg _) hfontSize)
      (hfactor hcharWidth (by norm_num)),
    mul_nonneg (mul_nonneg (Nat.cast_nonneg _) hfontSize) (hfactor hlineHeight (by norm_num))⟩

/-- The standard settings in exact numbers. -/
def Settings.exact : Settings ℚ :=
  { theme := none, logLevel := none, fontFamily := none, fontSize := none, fontWeight := none
    wrap := false, extra := []
    sequence :=
      { diagramMarginX := 50, diagramMarginY := 10, actorMargin := 50, width := 150, height := 65
        boxMargin := 10, boxTextMargin := 5, noteMargin := 10, messageMargin := 35
        mirrorActors := true, bottomMarginAdj := 1, activationWidth := 10, wrapPadding := 10
        wrap := false, messageFontSize := 16, noteFontSize := 16, actorFontSize := 14
        textPlacement := .tspan, extra := [] } }

end SequenceChart
