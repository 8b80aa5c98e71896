import SequenceChart.Proofs.Pairing
import SequenceChart.Proofs.Surroundings

/-!
# Blocks below each other

A block that is opened after another one is closed lies below it, for the cursor goes down by the
margin when a block is closed and when one is opened. Two things get in the way. Above an arrow and
above the end of an activation some height is kept free, which can be more than the margin. And a
short activation is stretched beyond the cursor, and takes the lower edge of the blocks around it
along.
-/

theorem List.IsPrefix.drop_subset {β : Type} {items more : List β} (hmore : items <+: more)
    {count fewer : ℕ} (hfewer : fewer ≤ count) : items.drop count ⊆ more.drop fewer :=
  List.Subset.trans (List.drop_sublist_drop_left items hfewer).subset (hmore.drop fewer).subset

namespace SequenceChart

/-- How far a block may begin above the line at which it is opened. -/
def SequenceSettings.headroom (settings : SequenceSettings ℚ) : ℚ :=
  max 0 (arrowHeight - settings.boxMargin)

theorem SequenceSettings.headroom_nonneg (settings : SequenceSettings ℚ) : 0 ≤ settings.headroom :=
  le_max_left _ _

theorem SequenceSettings.arrowHeight_le (settings : SequenceSettings ℚ) :
    arrowHeight ≤ settings.boxMargin + settings.headroom := by
  have hheadroom : arrowHeight - settings.boxMargin ≤ settings.headroom := le_max_right _ _
  linarith

theorem arrowHeight_nonneg : (0 : ℚ) ≤ arrowHeight := by
  norm_num [arrowHeight]

/-- The edge lies above the cursor, or it belongs to an activation that is stretched, and some
margins are added to it. -/
def Hangs (margin cursor : ℚ) (activations : List (PlacedActivation ℚ)) (edge : ExactEdge) : Prop :=
  edge ≤ place cursor ∨ ∃ activation ∈ activations,
    activation.stopY = activation.startY + leastActivation ∧
      (∃ count : ℕ, edge = place (activation.stopY + count * margin)) ∧ edge ≤ place (cursor + 12)

namespace Hangs

variable {margin cursor lower : ℚ} {activations more : List (PlacedActivation ℚ)}
  {edge other : ExactEdge}

theorem mono (hhangs : Hangs margin cursor activations edge) (hcursor : cursor ≤ lower)
    (hmore : activations ⊆ more) : Hangs margin lower more edge := by
  rcases hhangs with habove | ⟨activation, hmem, hstretched, hcount, hbelow⟩
  · exact .inl (habove.trans (place_le_place.mpr hcursor))
  · exact .inr ⟨activation, hmore hmem, hstretched, hcount,
      hbelow.trans (place_le_place.mpr (add_le_add_left hcursor 12))⟩

theorem max (hhangs : Hangs margin cursor activations edge)
    (hother : Hangs margin cursor activations other) :
    Hangs margin cursor activations (edge ⊔ other) := by
  rcases le_total edge other with hle | hle
  · rwa [sup_eq_right.mpr hle]
  · rwa [sup_eq_left.mpr hle]

/-- A scope that is closed is widened by the margin, and the cursor goes down as much. -/
theorem shift (hhangs : Hangs margin cursor activations edge) :
    Hangs margin (cursor + margin) activations (edge.shift margin) := by
  rcases hhangs with habove | ⟨activation, hmem, hstretched, ⟨count, rfl⟩, hbelow⟩
  · exact .inl (ExactEdge.shift_mono habove margin)
  · refine .inr ⟨activation, hmem, hstretched, ⟨count + 1, ?_⟩, ?_⟩
    · change place (activation.stopY + count * margin + margin) = _
      rw [Nat.cast_succ, add_mul, one_mul, add_assoc]
    · rw [add_right_comm]
      exact ExactEdge.shift_mono hbelow margin

end Hangs

/-- An activation that ends reaches down to the cursor, unless it is stretched. -/
theorem hangs_finishActivation (margin : ℚ) (activation : OpenActivation ℚ) (cursor : ℚ)
    {activations : List (PlacedActivation ℚ)}
    (hmem : Drawing.finishActivation activation cursor ∈ activations) :
    Hangs margin cursor activations
      (place (Drawing.finishActivation activation cursor).stopY) := by
  by_cases hshort : Scale.less cursor (activation.startY + leastActivation) = true
  · refine .inr ⟨_, hmem, ?_, ⟨0, ?_⟩, ?_⟩
    · rw [Drawing.finishActivation, if_pos hshort]
      change cursor + (12.0 : ℚ) = cursor - (6.0 : ℚ) + (18.0 : ℚ)
      norm_num [sub_add]
    · rw [Nat.cast_zero, zero_mul, add_zero]
    · rw [Drawing.finishActivation, if_pos hshort]
      change (place (cursor + (12.0 : ℚ)) : ExactEdge) ≤ place (cursor + 12)
      norm_num
  · refine .inl ?_
    rw [Drawing.finishActivation, if_neg hshort]
    exact le_refl _

namespace Drawing

variable {drawing later : Drawing ℚ ExactEdge} {pen : Pen ℚ} {actors : List Actor}
  {events before : List Event} {event : Event} {box : Box ExactEdge}
  {scopes : List ExactScope} {stack : List (List Event)}

/-- From top to bottom the box lies between the line at which a block is opened, after the events
before it, and the cursor, but for the height that is kept free and for stretched activations. -/
structure Spaced (pen : Pen ℚ) (actors : List Actor) (drawing : Drawing ℚ ExactEdge)
    (before : List Event) (box : Box ExactEdge) : Prop where
  top : ∀ start : Drawing ℚ ExactEdge, pen.drawAfter actors before = .ok start →
    place (start.cursor + pen.settings.boxMargin - pen.settings.headroom) ≤ box.startY
  bottom : Hangs pen.settings.boxMargin drawing.cursor
    (drawing.activations.drop (before.countP (Event.isEdge .stop))) box.stopY

/-- The open scopes, each with the events before its block, take no more than their blocks may. -/
def Spaces (pen : Pen ℚ) (actors : List Actor) (drawing : Drawing ℚ ExactEdge)
    (scopes : List ExactScope) (stack : List (List Event)) : Prop :=
  List.Forall₂ (fun scope before => drawing.Spaced pen actors before scope.extent) scopes stack

theorem Spaced.mono (hspaced : drawing.Spaced pen actors before box)
    (hcursor : drawing.cursor ≤ later.cursor)
    (hactivations : drawing.activations <+: later.activations) :
    later.Spaced pen actors before box :=
  ⟨hspaced.top, hspaced.bottom.mono hcursor (hactivations.drop_subset (Nat.le_refl _))⟩

theorem Spaced.include {scope : ExactScope}
    (hspaced : drawing.Spaced pen actors before scope.extent)
    (hbox : drawing.Spaced pen actors before box) :
    drawing.Spaced pen actors before (scope.include box).extent where
  top start hstart := le_min (hspaced.top start hstart) (hbox.top start hstart)
  bottom := hspaced.bottom.max hbox.bottom

theorem Spaces.include (hspaces : drawing.Spaces pen actors scopes stack)
    (hbox : ∀ before ∈ stack, drawing.Spaced pen actors before box) :
    drawing.Spaces pen actors (scopes.map (·.include box)) stack := by
  induction hspaces with
  | nil => exact .nil
  | cons hspaced _ ih =>
      obtain ⟨hfirst, hrest⟩ := List.forall_mem_cons.mp hbox
      exact .cons (hspaced.include hfirst) (ih hrest)

theorem Spaces.includeInner {bounds : ExactBounds}
    (hspaces : drawing.Spaces pen actors bounds.scopes stack)
    (hbox : ∀ before ∈ stack, drawing.Spaced pen actors before box) :
    drawing.Spaces pen actors (bounds.includeInner box).scopes stack := by
  unfold Bounds.includeInner
  split
  · exact hspaces
  · rename_i inner outer hscopes
    rw [hscopes] at hspaces
    cases hspaces with
    | cons hspaced hrest =>
        exact .cons (hspaced.include (hbox _ List.mem_cons_self)) hrest

theorem Spaces.addSection {bounds : ExactBounds}
    (hspaces : drawing.Spaces pen actors bounds.scopes stack) :
    drawing.Spaces pen actors (bounds.addSection?.getD bounds).scopes stack := by
  unfold Bounds.addSection?
  split
  · exact hspaces
  · rename_i inner outer hscopes
    rw [hscopes] at hspaces
    cases hspaces with
    | cons hspaced hrest => exact .cons hspaced hrest

theorem boxMargin_le_openingGap (hpen : pen.NonNegative) (kind : BlockKind) :
    pen.settings.boxMargin ≤
      if kind = .rect then pen.settings.boxMargin else labelledGap pen.settings := by
  split
  · exact le_refl _
  · exact le_add_of_nonneg_right (hpen.settings .boxTextMargin)

/-- Between the line at which a block is opened and what is drawn inside lies the margin. -/
theorem cursor_of_mem_unclosed (hpen : pen.NonNegative)
    (hdrawing : pen.drawAfter actors events = .ok drawing)
    (hmem : before ∈ blockBrackets.unclosed events) {start : Drawing ℚ ExactEdge}
    (hstart : pen.drawAfter actors before = .ok start) :
    start.cursor + pen.settings.boxMargin + pen.settings.boxMargin ≤ drawing.cursor := by
  obtain ⟨opening, inside, rfl, hopening, -⟩ := Brackets.exists_opening hmem
  obtain ⟨same, next, hsame, hnext, hafter, hrest⟩ := Pen.exists_step hdrawing
  obtain rfl := Except.ok.inj (hstart.symm.trans hsame)
  obtain ⟨kind, label, rfl⟩ := Event.exists_opening hopening
  have hinside := ((Pen.steady_drawAfter hpen hafter).grows_drawAll hpen hrest).cursor
  rw [← Except.ok.inj hnext] at hinside
  exact (add_le_add_right (boxMargin_le_openingGap hpen kind) _).trans hinside

/-- What is drawn lies below the lines at which the open blocks are opened, but for the height that
is kept free. -/
theorem spaced_boxAt (hpen : pen.NonNegative)
    (hdrawing : pen.drawAfter actors events = .ok drawing)
    (hmem : before ∈ blockBrackets.unclosed events) (startX stopX : ℚ) {upper lower : ℚ}
    (hupper : drawing.cursor - arrowHeight ≤ upper) (hlower : upper ≤ lower)
    (hhangs : Hangs pen.settings.boxMargin later.cursor
      (later.activations.drop (before.countP (Event.isEdge .stop))) (place lower)) :
    later.Spaced pen actors before (boxAt startX upper stopX lower) := by
  rw [boxAt_eq, min_eq_left hlower, max_eq_right hlower]
  refine ⟨fun start hstart => place_le_place.mpr ?_, hhangs⟩
  have hcursor := cursor_of_mem_unclosed hpen hdrawing hmem hstart
  have hheight := pen.settings.arrowHeight_le
  linarith

theorem Spaces.mono (hspaces : drawing.Spaces pen actors scopes stack)
    (hcursor : drawing.cursor ≤ later.cursor)
    (hactivations : drawing.activations <+: later.activations) :
    later.Spaces pen actors scopes stack :=
  List.Forall₂.imp (fun _ _ hspaced => hspaced.mono hcursor hactivations) hspaces

theorem Spaces.drawMessage
    (hspaces : later.Spaces pen actors drawing.bounds.scopes (blockBrackets.unclosed events))
    (hdrawing : pen.drawAfter actors events = .ok drawing) (hpen : pen.NonNegative)
    {message : Message} (hdraw : drawing.drawMessage pen message = .ok later) :
    later.Spaces pen actors later.bounds.scopes (blockBrackets.unclosed events) := by
  obtain ⟨bounds, placed, startX, stopX, hgrows, hscopes, -, rfl⟩ := drawMessage_inserts hpen hdraw
  rw [← hscopes] at hspaces
  exact hspaces.include fun before hmem => spaced_boxAt hpen hdrawing hmem startX stopX
    (sub_le_sub_right hgrows.cursor _) (sub_le_self _ arrowHeight_nonneg) (.inl (le_refl _))

theorem Spaces.drawNote
    (hspaces : later.Spaces pen actors drawing.bounds.scopes (blockBrackets.unclosed events))
    (hdrawing : pen.drawAfter actors events = .ok drawing) (hpen : pen.NonNegative) {note : Note}
    (hdraw : drawing.drawNote pen note = .ok later) :
    later.Spaces pen actors later.bounds.scopes (blockBrackets.unclosed events) := by
  have hmargin : 0 ≤ pen.settings.boxMargin := hpen.settings .boxMargin
  obtain ⟨span, height, maxWidth, hheight, rfl⟩ := drawNote_eq_ok hdraw
  have hdown : 0 ≤ height := hheight ▸ noteHeight_nonneg hpen _ _ _
  exact hspaces.include fun before hmem => spaced_boxAt hpen hdrawing hmem span.1 (span.1 + span.2)
    ((sub_le_self _ arrowHeight_nonneg).trans (le_add_of_nonneg_right hmargin))
    (le_add_of_nonneg_right hdown) (.inl (le_refl _))

theorem Spaces.endActivation {name : String}
    (hspaces : (drawing.endActivation name).Spaces pen actors drawing.bounds.scopes
      (blockBrackets.unclosed events))
    (hdrawing : pen.drawAfter actors events = .ok drawing) (hpen : pen.NonNegative)
    (hcounts : drawing.Counts events) :
    (drawing.endActivation name).Spaces pen actors (drawing.endActivation name).bounds.scopes
      (blockBrackets.unclosed events) := by
  cases hfound : drawing.openActivations.find? (·.actor = name) with
  | none =>
      have hsame : drawing.endActivation name = drawing := by
        rw [Drawing.endActivation, hfound]
      rw [hsame] at hspaces ⊢
      exact hspaces
  | some activation =>
      obtain ⟨placed, hplaced, hended⟩ := endActivation_of_find? hfound
      have hbelow : drawing.cursor ≤ placed.stopY :=
        hplaced ▸ cursor_le_finishActivation activation drawing.cursor
      rw [hended] at hspaces ⊢
      refine hspaces.include fun before hmem => spaced_boxAt hpen hdrawing hmem placed.startX
        placed.stopX (sub_le_sub_right hbelow _) (sub_le_self _ arrowHeight_nonneg) ?_
      -- The activation is one of those that have ended since the block was opened.
      obtain ⟨opening, inside, hevents, -⟩ := Brackets.exists_opening hmem
      have hcount : before.countP (Event.isEdge .stop) ≤ drawing.activations.length := by
        rw [hcounts.ended, hevents, List.countP_append]
        exact Nat.le_add_right _ _
      rw [hplaced]
      refine hangs_finishActivation _ activation drawing.cursor ?_
      change _ ∈ List.drop _ (drawing.activations ++ [_])
      rw [List.drop_append_of_le_length hcount]
      exact List.mem_append_right _ (List.mem_singleton_self _)

theorem Spaces.openBlock
    (hspaces : later.Spaces pen actors drawing.bounds.scopes (blockBrackets.unclosed events))
    (hdrawing : pen.drawAfter actors events = .ok drawing) (hpen : pen.NonNegative)
    {kind : BlockKind} {label : Option String}
    (hlater : drawing.openBlock pen kind (label.getD "") = later) :
    later.Spaces pen actors later.bounds.scopes
      (blockBrackets.unclosed (events ++ [.block (.opening kind) label])) := by
  rw [Brackets.unclosed_opening rfl]
  subst hlater
  refine .cons ⟨fun start hstart => ?_, .inl ?_⟩ hspaces
  · obtain rfl := Except.ok.inj (hdrawing.symm.trans hstart)
    exact place_le_place.mpr (sub_le_self _ pen.settings.headroom_nonneg)
  · exact place_le_place.mpr (le_add_of_nonneg_right (openingGap_nonneg hpen kind))

theorem Spaces.divideBlock
    (hspaces : later.Spaces pen actors drawing.bounds.scopes stack)
    {kind : SectionKind} {label : String}
    (hdraw : drawing.divideBlock pen kind label = .ok later) :
    later.Spaces pen actors later.bounds.scopes stack := by
  obtain ⟨inner, outer, -, -, rfl⟩ := divideBlock_eq_ok hdraw
  exact Spaces.addSection hspaces

/-! ### Closing a block

The box of a block that is closed and the cursor both go down by the margin, so that the box hangs
over by no more than what was drawn inside. The blocks around it take it in twice: when its scope is
closed, and when its box is inserted. -/

/-- From top to bottom the box takes what a closed block may. The block is opened where the drawing
`start` stands, after the events before it. -/
structure Fits (pen : Pen ℚ) (before : List Event) (start drawing : Drawing ℚ ExactEdge)
    (box : Box ExactEdge) : Prop where
  top : place (start.cursor - pen.settings.headroom) ≤ box.startY
  bottom : Hangs pen.settings.boxMargin drawing.cursor
    (drawing.activations.drop (before.countP (Event.isEdge .stop))) box.stopY

/-- A block takes no more than the blocks around it may. -/
theorem Fits.spaced {start : Drawing ℚ ExactEdge} (hfits : Fits pen events start later box)
    (hpen : pen.NonNegative) (hstart : pen.drawAfter actors events = .ok start)
    (hmem : before ∈ blockBrackets.unclosed events) : later.Spaced pen actors before box := by
  have hmargin : 0 ≤ pen.settings.boxMargin := hpen.settings .boxMargin
  obtain ⟨opening, inside, hevents, -⟩ := Brackets.exists_opening hmem
  refine ⟨fun first hfirst => ?_, hfits.bottom.mono (le_refl _) (List.prefix_rfl.drop_subset ?_)⟩
  · have habove := cursor_of_mem_unclosed hpen hstart hmem hfirst
    refine le_trans (place_le_place.mpr ?_) hfits.top
    linarith
  · rw [hevents, List.countP_append]
    exact Nat.le_add_right _ _

theorem Fits.corners {start : Drawing ℚ ExactEdge} (hfits : Fits pen before start later box)
    (hupright : box.startY ≤ box.stopY) : Fits pen before start later box.corners := by
  have hstartY : box.corners.startY = box.startY := min_eq_left hupright
  have hstopY : box.corners.stopY = box.stopY := max_eq_right hupright
  exact ⟨hstartY ▸ hfits.top, hstopY ▸ hfits.bottom⟩

/-- The block of a scope that is closed takes what a closed block may. -/
theorem Spaces.closeScope
    (hspaces : drawing.Spaces pen actors drawing.bounds.scopes (blockBrackets.unclosed events))
    (hdrawing : pen.drawAfter actors events = .ok drawing) (hpen : pen.NonNegative)
    (hcursor : later.cursor = drawing.cursor + pen.settings.boxMargin)
    (hactivations : later.activations = drawing.activations) {closed : ExactScope}
    {rest : ExactBounds} (hclose : drawing.bounds.closeScope? = some (closed, rest)) :
    ∃ (before : List Event) (start : Drawing ℚ ExactEdge),
      blockBrackets.unclosed events = before :: blockBrackets.unclosed before ∧
      pen.drawAfter actors before = .ok start ∧ Fits pen before start later closed.extent ∧
      later.Spaces pen actors rest.scopes (blockBrackets.unclosed before) := by
  have hboxMargin : 0 ≤ pen.settings.boxMargin := hpen.settings .boxMargin
  have hsteady := Pen.steady_drawAfter hpen hdrawing
  obtain ⟨inner, outer, hscopes, rfl, rfl⟩ := Bounds.closeScope?_eq_some hclose
  rw [hscopes] at hspaces
  generalize hstack : blockBrackets.unclosed events = stack at hspaces
  cases hspaces with
  | @cons _ before _ stack hinner houter =>
      obtain ⟨opening, inside, hevents, -, -, rfl⟩ := Brackets.settles_of_unclosed hstack
      rw [hevents] at hdrawing
      obtain ⟨start, next, hstart, -⟩ := Pen.exists_step hdrawing
      rw [hsteady.margin]
      have hfits : Fits pen before start later (inner.extent.expand pen.settings.boxMargin) := by
        constructor
        · refine le_trans (place_le_place.mpr ?_)
            (ExactEdge.shift_mono (hinner.top start hstart) (-pen.settings.boxMargin))
          linarith
        · rw [hcursor, hactivations]
          exact hinner.bottom.shift
      have hkept : later.Spaces pen actors outer (blockBrackets.unclosed before) :=
        Spaces.mono houter (hcursor ▸ le_add_of_nonneg_right hboxMargin)
          (hactivations ▸ List.prefix_rfl)
      exact ⟨before, start, rfl, hstart, hfits, Spaces.includeInner hkept
        fun earlier hmem => hfits.spaced hpen hstart hmem⟩

/-- A block that is closed takes up what its scope takes, and the margin above and below. -/
theorem Spaces.closeBlock
    (hspaces : drawing.Spaces pen actors drawing.bounds.scopes (blockBrackets.unclosed events))
    (hdrawing : pen.drawAfter actors events = .ok drawing) (hpen : pen.NonNegative)
    {kind : BlockKind} (hdraw : drawing.closeBlock pen kind = .ok later) :
    ∃ (placed : PlacedBlock ℚ ExactEdge) (before : List Event) (start : Drawing ℚ ExactEdge),
      later.blocks = drawing.blocks ++ [placed] ∧
      blockBrackets.unclosed events = before :: blockBrackets.unclosed before ∧
      pen.drawAfter actors before = .ok start ∧ Fits pen before start later placed.bounds ∧
      later.Spaces pen actors later.bounds.scopes (blockBrackets.unclosed before) := by
  have hsteady := Pen.steady_drawAfter hpen hdrawing
  obtain ⟨block, outer, closed, rest, placed, bounds, -, -, hclose, hbounds, hlater⟩ :=
    closeBlock_eq_ok hdraw
  have htame := hsteady.tame_closed hpen hclose
  have hactivations : later.activations = drawing.activations := by
    rw [hlater]
    rfl
  obtain ⟨before, start, hstack, hstart, hfits, houter⟩ :=
    hspaces.closeScope hdrawing hpen (cursor_closeBlock hdraw) hactivations hclose
  rcases hbounds with ⟨-, rfl, rfl⟩ | ⟨-, rfl, rfl⟩
  · refine ⟨_, before, start, congrArg Drawing.blocks hlater, hstack, hstart, hfits, ?_⟩
    rw [hlater] at houter ⊢
    exact houter
  · -- The box of a blank block takes as much from top to bottom as its scope.
    have hbox : Fits pen before start later (drawing.blockBox pen closed.extent) :=
      ⟨hfits.top, hfits.bottom⟩
    have hcorners := hbox.corners (htame.startY.trans htame.stopY)
    have hboth := houter.include fun earlier hmem => hcorners.spaced hpen hstart hmem
    refine ⟨_, before, start, congrArg Drawing.blocks hlater, hstack, hstart, hbox, ?_⟩
    rw [hlater] at hboth ⊢
    exact hboth

theorem Spaces.draw
    (hspaces : drawing.Spaces pen actors drawing.bounds.scopes (blockBrackets.unclosed events))
    (hdrawing : pen.drawAfter actors events = .ok drawing) (hpen : pen.NonNegative)
    (hcounts : drawing.Counts events) (hdraw : drawing.draw pen event = .ok later) :
    later.Spaces pen actors later.bounds.scopes (blockBrackets.unclosed (events ++ [event])) := by
  have hsteady := Pen.steady_drawAfter hpen hdrawing
  have hkept : later.Spaces pen actors drawing.bounds.scopes (blockBrackets.unclosed events) :=
    hspaces.mono (hsteady.grows_draw hpen hdraw).cursor (extends_draw hdraw).activations
  cases event with
  | message message =>
      rw [Brackets.unclosed_plain rfl rfl]
      exact hkept.drawMessage hdrawing hpen hdraw
  | note note =>
      rw [Brackets.unclosed_plain rfl rfl]
      exact hkept.drawNote hdrawing hpen hdraw
  | activation edge name =>
      rw [Brackets.unclosed_plain rfl rfl]
      cases edge with
      | start =>
          obtain ⟨actor, activation, -, -, -, rfl⟩ := startActivation_eq_ok hdraw
          exact hkept
      | stop =>
          obtain rfl := Except.ok.inj hdraw
          exact hkept.endActivation hdrawing hpen hcounts
  | block marker label =>
      cases marker with
      | opening kind => exact hkept.openBlock hdrawing hpen (Except.ok.inj hdraw)
      | divider kind =>
          rw [Brackets.unclosed_plain rfl rfl]
          exact hkept.divideBlock hdraw
      | closing kind =>
          obtain ⟨placed, before, start, -, hstack, -, -, hlater⟩ :=
            hspaces.closeBlock hdrawing hpen hdraw
          rw [Brackets.unclosed_closing rfl, hstack]
          exact hlater

theorem spaces_drawAfter (hpen : pen.NonNegative) (hfollow : EndsFollowStarts events)
    (hdrawing : pen.drawAfter actors events = .ok drawing) :
    drawing.Spaces pen actors drawing.bounds.scopes (blockBrackets.unclosed events) := by
  refine Pen.drawAfter_induction
    (motive := fun events drawing =>
      drawing.Spaces pen actors drawing.bounds.scopes (blockBrackets.unclosed events)) ?_ ?_
    hdrawing
  · obtain ⟨bounds, -, -, hscopes, hdrawn⟩ := drawActors_eq (ε := ExactEdge) pen actors
    rw [hdrawn]
    change Spaces _ _ _ bounds.scopes []
    rw [hscopes]
    exact .nil
  · intro before event drawing later hbefore hdrawing hspaces hdraw
    have hearlier := hfollow.of_isPrefix ((List.prefix_append before [event]).trans hbefore)
    exact hspaces.draw hdrawing hpen (counts_drawAfter hearlier hdrawing) hdraw

end Drawing

section Layout

variable {settings : Settings ℚ} {measurer : Measurer ℚ} {layout : Layout ℚ ExactEdge}

/-- A block of the layout lies between the line at which it is opened and the cursor at which it is
closed, but for the height that is kept free and for stretched activations. -/
theorem Diagram.exists_spaced {diagram : Diagram} (hfollow : EndsFollowStarts diagram.events)
    (hsettings : settings.sequence.NonNegative) (hmeasurer : measurer.NonNegative)
    (hlayout : diagram.layout settings measurer = .ok layout)
    (pair : blockBrackets.Pair diagram.events) :
    ∃ (start later : Drawing ℚ ExactEdge) (block : PlacedBlock ℚ ExactEdge),
      (Pen.ofSettings settings measurer).drawAfter diagram.actors pair.before = .ok start ∧
      (Pen.ofSettings settings measurer).drawAfter diagram.actors
        (pair.filled ++ [pair.closing]) = .ok later ∧
      layout.blocks[pair.filled.countP Event.isClosing]? = some block ∧
      place (start.cursor - settings.sequence.headroom) ≤ block.bounds.startY ∧
      Hangs settings.sequence.boxMargin later.cursor
        (pair.slice (Event.isEdge .stop) layout.activations) block.bounds.stopY := by
  have hpen : (Pen.ofSettings settings measurer).NonNegative := ⟨hsettings, hmeasurer⟩
  obtain ⟨drawing, later, kind, hdrawing, hdraw, hlater, hearlier, hshown⟩ :=
    Diagram.exists_closeBlock hlayout pair
  have hfilled := hfollow.of_isPrefix pair.filled_isPrefix
  have hcounts := Drawing.counts_drawAfter hfilled hdrawing
  have hspaces := Drawing.spaces_drawAfter hpen hfilled hdrawing
  obtain ⟨placed, before, start, hblocks, hunclosed, hstart, hfits, -⟩ :=
    hspaces.closeBlock hdrawing hpen hdraw
  rw [pair.unclosed_filled] at hunclosed
  obtain ⟨rfl, -⟩ := List.cons.inj hunclosed
  have hplain : ∀ edge name, Event.block (.closing kind) none ≠ .activation edge name := nofun
  have hactivations : later.activations = drawing.activations :=
    (Drawing.draw_activations hplain hdraw).2
  obtain ⟨openingKind, label, hopening⟩ := Event.exists_opening pair.opens
  refine ⟨start, later, placed, hstart, hlater, ?_, hfits.top, ?_⟩
  · rw [← (Pen.shows_drawAfter hdrawing).length_blocks]
    exact getElem?_of_append_isPrefix (hblocks ▸ hshown.blocks)
  · rw [pair.slice_eq (hopening ▸ rfl) hcounts.ended hearlier.activations, ← hactivations]
    exact hfits.bottom

/-- **Blocks below each other.** A block that is opened after another one is closed begins below
it, but for the height that is kept free above an arrow or the end of an activation where that is
more than the margin. Only if the upper block ends where a stretched activation does, with the
margins of the blocks around it in between, it may reach further, by as much as an activation is
stretched below the cursor. -/
theorem Chart.Built.blocks_apart {chart : Chart} (hbuilt : chart.Built)
    (hsettings : settings.sequence.NonNegative) (hmeasurer : measurer.NonNegative)
    (hlayout : chart.diagram.layout settings measurer = .ok layout) :
    (∀ index < layout.blocks.length, ∃ pair : blockBrackets.Pair chart.diagram.events,
      pair.filled.countP Event.isClosing = index) ∧
      ∀ upper lower : blockBrackets.Pair chart.diagram.events, upper.stop < lower.start →
        ∃ first second, layout.blocks[upper.filled.countP Event.isClosing]? = some first ∧
          layout.blocks[lower.filled.countP Event.isClosing]? = some second ∧
          (first.bounds.stopY ≤ second.bounds.startY.shift settings.sequence.headroom ∨
            ∃ activation ∈ upper.slice (Event.isEdge .stop) layout.activations,
              activation.stopY = activation.startY + leastActivation ∧
              (∃ count : ℕ, first.bounds.stopY =
                place (activation.stopY + count * settings.sequence.boxMargin)) ∧
              first.bounds.stopY ≤
                second.bounds.startY.shift (settings.sequence.headroom + 12)) := by
  have hpen : (Pen.ofSettings settings measurer).NonNegative := ⟨hsettings, hmeasurer⟩
  have hfollow := hbuilt.balanced.follow
  refine ⟨fun index => Diagram.exists_blockPair hsettings hmeasurer hlayout, ?_⟩
  intro upper lower hbefore
  obtain ⟨-, closed, first, -, hclosed, hfirst, -, hhangs⟩ :=
    Diagram.exists_spaced hfollow hsettings hmeasurer hlayout upper
  obtain ⟨start, -, second, hstart, -, hsecond, htop, -⟩ :=
    Diagram.exists_spaced hfollow hsettings hmeasurer hlayout lower
  obtain ⟨between, hbetween⟩ := upper.closed_isPrefix hbefore
  have hcursor : closed.cursor ≤ start.cursor :=
    Pen.cursor_le_drawAfter hpen hclosed (hbetween ▸ hstart)
  have hbelow (distance : ℚ) : place (closed.cursor + distance) ≤
      second.bounds.startY.shift (settings.sequence.headroom + distance) := by
    refine le_trans (place_le_place.mpr ?_)
      (ExactEdge.shift_mono htop (settings.sequence.headroom + distance))
    linarith
  refine ⟨first, second, hfirst, hsecond, ?_⟩
  rcases hhangs with habove | ⟨activation, hmem, hstretched, hcount, hreach⟩
  · have hcleared := hbelow 0
    rw [add_zero, add_zero] at hcleared
    exact .inl (habove.trans hcleared)
  · exact .inr ⟨activation, hmem, hstretched, hcount, hreach.trans (hbelow 12)⟩

end Layout

/-- A block that is opened after another one is closed begins above the lower edge of that one. -/
def Diagram.Overlaps (diagram : Diagram) (settings : Settings ℚ) (measurer : Measurer ℚ) : Prop :=
  ∃ (layout : Layout ℚ ExactEdge) (upper lower : blockBrackets.Pair diagram.events),
    diagram.layout settings measurer = .ok layout ∧ upper.stop < lower.start ∧
      ∃ first second, layout.blocks[upper.filled.countP Event.isClosing]? = some first ∧
        layout.blocks[lower.filled.countP Event.isClosing]? = some second ∧
        second.bounds.startY < first.bounds.stopY

/-- The first two blocks that are closed, if the second one is opened after the first one. -/
theorem exists_firstPairs {events front middle back before : List Event} {closing other : Event}
    {stack rest : List (List Event)}
    (hevents : events = front ++ closing :: (middle ++ other :: back))
    (hcloses : closing.isClosing = true) (hothercloses : other.isClosing = true)
    (hfront : blockBrackets.unclosed front = [] :: stack)
    (hmiddle : blockBrackets.unclosed (front ++ closing :: middle) = before :: rest)
    (hbefore : front.length < before.length) (hfirst : front.countP Event.isClosing = 0)
    (hsecond : middle.countP Event.isClosing = 0) :
    ∃ upper lower : blockBrackets.Pair events, upper.stop < lower.start ∧
      upper.filled.countP Event.isClosing = 0 ∧ lower.filled.countP Event.isClosing = 1 := by
  obtain ⟨upper, -, hupper⟩ := Brackets.exists_pair hevents hcloses hfront
  rw [← List.cons_append, ← List.append_assoc] at hevents
  obtain ⟨lower, hstart, hlower⟩ := Brackets.exists_pair hevents hothercloses hmiddle
  refine ⟨upper, lower, ?_, hupper ▸ hfirst, ?_⟩
  · rw [Brackets.Pair.stop, Brackets.Pair.start, hupper, hstart]
    exact hbefore
  · rw [hlower, List.countP_append, List.countP_cons_of_pos hcloses, hfirst, hsecond]

theorem Diagram.overlaps_of_bounds {diagram : Diagram} {settings : Settings ℚ}
    {measurer : Measurer ℚ} {first second : Box ExactEdge}
    (hblocks : (diagram.layout settings measurer).toOption.map (·.blocks.map PlacedBlock.bounds) =
      some [first, second]) (hoverlap : second.startY < first.stopY)
    (hpairs : ∃ upper lower : blockBrackets.Pair diagram.events, upper.stop < lower.start ∧
      upper.filled.countP Event.isClosing = 0 ∧ lower.filled.countP Event.isClosing = 1) :
    diagram.Overlaps settings measurer := by
  obtain ⟨upper, lower, hbefore, hupper, hlower⟩ := hpairs
  cases hlayout : (diagram.layout settings measurer : Except LayoutError (Layout ℚ ExactEdge)) with
  | error fault =>
      rw [hlayout] at hblocks
      cases hblocks
  | ok layout =>
      rw [hlayout] at hblocks
      obtain ⟨top, rest, htop, rfl, hrest⟩ := List.map_eq_cons_iff.mp (Option.some.inj hblocks)
      obtain ⟨bottom, more, hbottom, rfl, -⟩ := List.map_eq_cons_iff.mp hrest
      refine ⟨layout, upper, lower, hlayout, hbefore, top, bottom, ?_, ?_, hoverlap⟩
      · rw [hupper, htop]
        rfl
      · rw [hlower, htop, hbottom]
        rfl

/-- A block with an activation that ends at once, and a block below. -/
def stretched : Chart :=
  Chart.empty.operateAll
    [.edit (.addActor "A" none), .edit (.addBlockMarker (.opening .loop) (some "one")),
      .edit (.activate "A"), .edit (.deactivate "A"),
      .edit (.addBlockMarker (.closing .loop) none),
      .edit (.addBlockMarker (.opening .loop) (some "two")),
      .edit (.addBlockMarker (.closing .loop) none)]

theorem built_stretched : stretched.Built :=
  Chart.Built.operateAll (.new .standard) _

theorem stretched_pairs : ∃ upper lower : blockBrackets.Pair stretched.diagram.events,
    upper.stop < lower.start ∧ upper.filled.countP Event.isClosing = 0 ∧
      lower.filled.countP Event.isClosing = 1 := by
  have hevents : stretched.diagram.events =
      [.block (.opening .loop) (some "one"), .activation .start "A", .activation .stop "A"] ++
        .block (.closing .loop) none ::
          ([.block (.opening .loop) (some "two")] ++ .block (.closing .loop) none :: []) := by
    decide +kernel
  exact exists_firstPairs hevents rfl rfl rfl rfl (by decide) rfl rfl

theorem stretched_apart : ∃ layout : Layout ℚ ExactEdge,
    stretched.diagram.layout .exact Grid.standard.measurer = .ok layout ∧
      ∃ first second, layout.blocks[0]? = some first ∧ layout.blocks[1]? = some second ∧
        (first.bounds.stopY ≤ second.bounds.startY.shift Settings.exact.sequence.headroom ∨
          ∃ activation ∈ layout.activations,
            activation.stopY = activation.startY + leastActivation ∧ first.bounds.stopY ≤
              second.bounds.startY.shift (Settings.exact.sequence.headroom + 12)) := by
  obtain ⟨layout, hlayout⟩ : ∃ layout : Layout ℚ ExactEdge,
      stretched.diagram.layout .exact Grid.standard.measurer = .ok layout :=
    Diagram.layout_eq_ok built_stretched.balanced.registered rfl .exact Grid.standard.measurer
  obtain ⟨-, hapart⟩ := built_stretched.blocks_apart Settings.nonNegative_exact
    Grid.nonNegative_standard hlayout
  obtain ⟨upper, lower, hbefore, hupper, hlower⟩ := stretched_pairs
  obtain ⟨first, second, hfirst, hsecond, hreach⟩ := hapart upper lower hbefore
  rw [hupper] at hfirst
  rw [hlower] at hsecond
  refine ⟨layout, hlayout, first, second, hfirst, hsecond, hreach.imp_right ?_⟩
  rintro ⟨activation, hmem, hstretched, -, hreach⟩
  exact ⟨activation, List.mem_of_mem_drop (List.mem_of_mem_take hmem), hstretched, hreach⟩

/-- A block in which nothing is drawn, and a block with a message below. -/
def crowded : Chart :=
  Chart.empty.operateAll
    [.edit (.addActor "A" none), .edit (.addActor "B" none),
      .edit (.addBlockMarker (.opening .loop) (some "one")),
      .edit (.addBlockMarker (.closing .loop) none),
      .edit (.addBlockMarker (.opening .loop) (some "two")), .edit (.addMessage "A" "B" .solid "y"),
      .edit (.addBlockMarker (.closing .loop) none)]

theorem built_crowded : crowded.Built :=
  Chart.Built.operateAll (.new .standard) _

theorem crowded_pairs : ∃ upper lower : blockBrackets.Pair crowded.diagram.events,
    upper.stop < lower.start ∧ upper.filled.countP Event.isClosing = 0 ∧
      lower.filled.countP Event.isClosing = 1 := by
  have hevents : crowded.diagram.events =
      [.block (.opening .loop) (some "one")] ++ .block (.closing .loop) none ::
        ([.block (.opening .loop) (some "two"), .message ⟨.solid, "A", "B", "y", false, none⟩] ++
          .block (.closing .loop) none :: []) := by
    decide +kernel
  exact exists_firstPairs hevents rfl rfl rfl rfl (by decide) rfl rfl

/-- The standard settings, with no margins between events. -/
def Settings.tight : Settings ℚ :=
  { Settings.exact with
    sequence := { Settings.exact.sequence with
      boxMargin := 0, boxTextMargin := 0, messageMargin := 0 } }

theorem Settings.nonNegative_tight : Settings.tight.sequence.NonNegative := by
  intro key
  cases key <;> norm_num [Settings.tight, Settings.exact, SequenceSettings.length]

/-- A block overlaps with one above it, if an activation is stretched there, or if less than the
height of an arrow lies between events. -/
theorem blocks_overlap :
    Settings.exact.sequence.NonNegative ∧ Settings.tight.sequence.NonNegative ∧
      (Grid.standard : Grid ℚ).measurer.NonNegative ∧
      stretched.Built ∧ stretched.diagram.Overlaps .exact Grid.standard.measurer ∧
      crowded.Built ∧ crowded.diagram.Overlaps .tight Grid.standard.measurer := by
  refine ⟨Settings.nonNegative_exact, Settings.nonNegative_tight, Grid.nonNegative_standard,
    built_stretched, ?_, built_crowded, ?_⟩
  · have hblocks : (stretched.diagram.layout .exact Grid.standard.measurer).toOption.map
        (·.blocks.map PlacedBlock.bounds) =
          some [boxAt (60 : ℚ) 65 90 112, boxAt (-10 : ℚ) 100 160 120] := by decide +kernel
    exact Diagram.overlaps_of_bounds hblocks (by decide +kernel) stretched_pairs
  · have hblocks : (crowded.diagram.layout .tight Grid.standard.measurer).toOption.map
        (·.blocks.map PlacedBlock.bounds) =
          some [boxAt (0 : ℚ) 65 350 65, boxAt (75 : ℚ) 55 275 65] := by decide +kernel
    exact Diagram.overlaps_of_bounds hblocks (by decide +kernel) crowded_pairs

end SequenceChart
