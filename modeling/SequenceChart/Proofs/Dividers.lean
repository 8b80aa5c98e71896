import SequenceChart.Proofs.Heights

/-!
# Dividers in their blocks

The position of a divider is where the cursor stood, and the box of a block grows by what is drawn
inside. So the dividers of a block come in order below its upper edge, and a divider lies above the
lower edge if something is drawn after it in the block. One with nothing drawn after it can lie
below the box.

The scopes that are open lie on a stack: while a scope is open, the one around it gets no dividers,
so that those of the outer scope lie above the line at which the inner one was opened.
-/

namespace SequenceChart

/-- Something is drawn of the event in the block around it. Of a block, this is its closing
marker. -/
def Event.isDrawn : Event → Bool
  | message _ | note _ | activation .stop _ | block (.closing _) _ => true
  | activation .start _ | block (.opening _) _ | block (.divider _) _ => false

/-- Events that nest in a block, with what follows dividers: for each block that the events close,
and then for the block around them, the list tells of each divider whether something is drawn after
it in its block. -/
inductive Divides : List Event → List (List Bool) → List Bool → Prop
  | nil : Divides [] [] []
  | plain {event : Event} {events : List Event} {blocks : List (List Bool)}
      {dividers : List Bool} :
      event.isMarker = false → Divides events blocks dividers →
      Divides (event :: events) blocks dividers
  | divider {divider : SectionKind} {label : Option String} {events : List Event}
      {blocks : List (List Bool)} {dividers : List Bool} :
      Divides events blocks dividers →
      Divides (.block (.divider divider) label :: events) blocks
        (events.any Event.isDrawn :: dividers)
  | block {kind closedKind : BlockKind} {label closingLabel : Option String}
      {inside events : List Event} {inner blocks : List (List Bool)}
      {innerDividers dividers : List Bool} :
      Divides inside inner innerDividers → Divides events blocks dividers →
      Divides
        (.block (.opening kind) label ::
          (inside ++ .block (.closing closedKind) closingLabel :: events))
        (inner ++ innerDividers :: blocks) dividers

theorem NestsIn.exists_divides {around : Option BlockKind} {events : List Event}
    {blocks : List BlockOutline} {sections : List String}
    (hnests : NestsIn around events blocks sections) :
    ∃ divided dividers, Divides events divided dividers ∧ dividers.length = sections.length := by
  induction hnests with
  | nil => exact ⟨[], [], .nil, rfl⟩
  | plain hmarker _ ih =>
      obtain ⟨divided, dividers, hdivides, hlength⟩ := ih
      exact ⟨divided, dividers, .plain hmarker hdivides, hlength⟩
  | divider _ ih =>
      obtain ⟨divided, dividers, hdivides, hlength⟩ := ih
      exact ⟨divided, _, .divider hdivides, congrArg (· + 1) hlength⟩
  | block _ _ ihInside ih =>
      obtain ⟨inner, innerDividers, hinside, -⟩ := ihInside
      obtain ⟨divided, dividers, hdivides, hlength⟩ := ih
      exact ⟨_, dividers, .block hinside hdivides, hlength⟩

/-! ### The trail of the events

What `Divides` tells by nesting, a trail tells event by event, so that it can be kept beside a
drawing. The two agree, since a closed block leaves the blocks around it as it found them, but that
it counts as drawn there. -/

/-- The same, event by event: what is known so far of the open blocks, the innermost first, and of
the closed ones. -/
structure Trail where
  opened : List (List Bool)
  closed : List (List Bool)

namespace Trail

/-- Something is drawn in the innermost block. -/
def mark : List (List Bool) → List (List Bool)
  | [] => []
  | inner :: outer => inner.map (fun _ => true) :: outer

/-- A divider of the innermost block. -/
def divide : List (List Bool) → List (List Bool)
  | [] => []
  | inner :: outer => (inner ++ [false]) :: outer

def follow (trail : Trail) : Event → Trail
  | .message _ | .note _ | .activation .stop _ => { trail with opened := mark trail.opened }
  | .activation .start _ => trail
  | .block (.opening _) _ => { trail with opened := [] :: trail.opened }
  | .block (.divider _) _ => { trail with opened := divide trail.opened }
  | .block (.closing _) _ =>
      { opened := mark trail.opened.tail, closed := trail.closed ++ trail.opened.head?.toList }

/-- The innermost block after more events of it. -/
def extend (opened : List (List Bool)) (drawn : Bool) (dividers : List Bool) : List (List Bool) :=
  match opened with
  | [] => []
  | inner :: outer => ((if drawn then inner.map (fun _ => true) else inner) ++ dividers) :: outer

theorem extend_nil (opened : List (List Bool)) : extend opened false [] = opened := by
  cases opened with
  | nil => rfl
  | cons inner outer => exact congrArg (· :: outer) (List.append_nil inner)

theorem extend_opening (opened : List (List Bool)) (drawn : Bool) (dividers : List Bool) :
    extend ([] :: opened) drawn dividers = dividers :: opened := by
  cases drawn <;> rfl

theorem extend_mark (opened : List (List Bool)) (drawn : Bool) (dividers : List Bool) :
    extend (mark opened) drawn dividers = extend opened true dividers := by
  cases opened with
  | nil => rfl
  | cons inner outer => cases drawn <;> simp [extend, mark]

theorem extend_divide (opened : List (List Bool)) (drawn : Bool) (dividers : List Bool) :
    extend (divide opened) drawn dividers = extend opened drawn (drawn :: dividers) := by
  cases opened with
  | nil => rfl
  | cons inner outer => cases drawn <;> simp [extend, divide]

end Trail

theorem Divides.foldl_follow {events : List Event} {blocks : List (List Bool)}
    {dividers : List Bool} (hdivides : Divides events blocks dividers) (trail : Trail) :
    events.foldl Trail.follow trail =
      { opened := Trail.extend trail.opened (events.any Event.isDrawn) dividers
        closed := trail.closed ++ blocks } := by
  induction hdivides generalizing trail with
  | nil => rw [List.foldl_nil, List.any_nil, Trail.extend_nil, List.append_nil]
  | @plain event events blocks dividers hmarker hdivides ih =>
      rw [List.foldl_cons, ih, List.any_cons]
      cases event with
      | message | note =>
          rw [Event.isDrawn, Bool.true_or, ← Trail.extend_mark]
          rfl
      | activation edge name =>
          cases edge with
          | start => rfl
          | stop =>
              rw [Event.isDrawn, Bool.true_or, ← Trail.extend_mark]
              rfl
      | block => cases hmarker
  | divider hdivides ih =>
      rw [List.foldl_cons, ih, List.any_cons, Event.isDrawn, Bool.false_or, ← Trail.extend_divide]
      rfl
  | @block kind closedKind label closingLabel inside events inner blocks innerDividers dividers
      hinside hdivides ihInside ih =>
      have hdrawn : (Event.block (.opening kind) label :: (inside ++
          .block (.closing closedKind) closingLabel :: events)).any Event.isDrawn = true := by
        simp [Event.isDrawn]
      rw [List.foldl_cons, List.foldl_append, List.foldl_cons, ihInside, ih, hdrawn]
      simp only [Trail.follow, Trail.extend_opening, List.tail_cons, List.head?_cons,
        Option.toList_some, List.append_assoc, List.singleton_append, Trail.extend_mark]

/-- The dividers of the scope come in order, from where it was opened to the limit. Its extent
reaches down to those after which something was drawn. -/
structure Scope.Divided (scope : ExactScope) (limit : ℚ) (dividers : List Bool) : Prop where
  tame : scope.Tame
  openedAt : scope.openedAt ≤ limit
  sorted : scope.sections.Pairwise (· ≤ ·)
  between : ∀ y ∈ scope.sections, scope.openedAt ≤ y ∧ y ≤ limit
  reached : List.Forall₂ (fun y drawn => drawn = true → place y ≤ scope.extent.stopY)
    scope.sections dividers

namespace Scope.Divided

variable {scope : ExactScope} {limit later : ℚ} {dividers : List Bool} {box : Box ExactEdge}

theorem mono (hdivided : scope.Divided limit dividers) (hlimit : limit ≤ later) :
    scope.Divided later dividers :=
  { hdivided with
    openedAt := hdivided.openedAt.trans hlimit
    between := fun y hmem =>
      ⟨(hdivided.between y hmem).1, (hdivided.between y hmem).2.trans hlimit⟩ }

theorem widen (hdivided : scope.Divided limit dividers) {extent : Box ExactEdge}
    (htame : ({ scope with extent } : ExactScope).Tame) (hle : scope.extent ≤ extent) :
    ({ scope with extent } : ExactScope).Divided limit dividers :=
  { hdivided with
    tame := htame
    reached := hdivided.reached.imp fun _ _ hreached hdrawn => (hreached hdrawn).trans hle.2.2.2 }

theorem insert (hdivided : scope.Divided limit dividers) (hbox : box.Bounded) :
    (scope.include box).Divided limit dividers :=
  hdivided.widen (hdivided.tame.include hbox) le_sup_left

/-- A box that reaches down to the limit reaches down to all dividers. -/
theorem insert_drawn (hdivided : scope.Divided limit dividers) (hbox : box.Bounded)
    (hlimit : place limit ≤ box.stopY) :
    (scope.include box).Divided limit (dividers.map fun _ => true) := by
  refine { hdivided.insert hbox with reached := ?_ }
  rw [List.forall₂_map_right_iff]
  refine List.forall₂_iff_get.mpr ⟨hdivided.reached.length_eq, fun i hleft hright _ => ?_⟩
  have hy := (hdivided.between _ (List.get_mem scope.sections ⟨i, hleft⟩)).2
  exact ((place_le_place.mpr hy).trans hlimit).trans (le_max_right _ _)

theorem divide (hdivided : scope.Divided limit dividers) :
    ({ scope with sections := scope.sections ++ [limit] } : ExactScope).Divided limit
      (dividers ++ [false]) where
  tame := ⟨hdivided.tame.bounded, hdivided.tame.startY, hdivided.tame.stopY⟩
  openedAt := hdivided.openedAt
  sorted := by
    refine List.pairwise_append.mpr ⟨hdivided.sorted, List.pairwise_singleton _ _, ?_⟩
    rintro y hy last hlast
    rw [List.mem_singleton.mp hlast]
    exact (hdivided.between y hy).2
  between := List.forall_mem_append.mpr
    ⟨hdivided.between, List.forall_mem_singleton.mpr ⟨hdivided.openedAt, le_refl _⟩⟩
  reached := List.rel_append hdivided.reached (.cons nofun .nil)

end Scope.Divided

/-- The scopes are divided, the innermost down to the limit and each other one down to the line at
which the next one was opened. -/
inductive Stacked : ℚ → List ExactScope → List (List Bool) → Prop
  | nil (limit : ℚ) : Stacked limit [] []
  | cons {limit : ℚ} {scope : ExactScope} {dividers : List Bool} {outer : List ExactScope}
      {others : List (List Bool)} :
      scope.Divided limit dividers → Stacked scope.openedAt outer others →
      Stacked limit (scope :: outer) (dividers :: others)

namespace Stacked

variable {limit later : ℚ} {scopes : List ExactScope} {opened : List (List Bool)}
  {box : Box ExactEdge}

theorem mono (hstacked : Stacked limit scopes opened) (hlimit : limit ≤ later) :
    Stacked later scopes opened := by
  cases hstacked with
  | nil => exact .nil later
  | cons hdivided houter => exact .cons (hdivided.mono hlimit) houter

theorem insert (hstacked : Stacked limit scopes opened) (hbox : box.Bounded) :
    Stacked limit (scopes.map (·.include box)) opened := by
  induction hstacked with
  | nil => exact .nil _
  | cons hdivided _ ih => exact .cons (hdivided.insert hbox) ih

theorem insert_drawn (hstacked : Stacked limit scopes opened) (hbox : box.Bounded)
    (hlimit : place limit ≤ box.stopY) :
    Stacked limit (scopes.map (·.include box)) (Trail.mark opened) := by
  cases hstacked with
  | nil => exact .nil _
  | cons hdivided houter => exact .cons (hdivided.insert_drawn hbox hlimit) (houter.insert hbox)

end Stacked

namespace Bounds

/-- The open scopes of the bounds are divided. -/
structure Stacks (bounds : ExactBounds) (opened : List (List Bool)) : Prop where
  margin : 0 ≤ bounds.margin
  stacked : Stacked bounds.cursor bounds.scopes opened

namespace Stacks

variable {bounds rest : ExactBounds} {opened : List (List Bool)} {box : Box ExactEdge}

theorem advance (hstacks : bounds.Stacks opened) {distance : ℚ} (hdistance : 0 ≤ distance) :
    (bounds.advance distance).Stacks opened :=
  ⟨hstacks.margin, hstacks.stacked.mono (le_add_of_nonneg_right hdistance)⟩

theorem insert (hstacks : bounds.Stacks opened) (hbox : box.Bounded) :
    (bounds.insert box).Stacks opened :=
  ⟨hstacks.margin, hstacks.stacked.insert hbox⟩

theorem insert_drawn (hstacks : bounds.Stacks opened) (hbox : box.Bounded)
    (hcursor : place bounds.cursor ≤ box.stopY) : (bounds.insert box).Stacks (Trail.mark opened) :=
  ⟨hstacks.margin, hstacks.stacked.insert_drawn hbox hcursor⟩

theorem openScope (hstacks : bounds.Stacks opened) : bounds.openScope.Stacks ([] :: opened) where
  margin := hstacks.margin
  stacked := by
    refine .cons ⟨?_, le_refl _, .nil, nofun, .nil⟩ hstacks.stacked
    exact ⟨⟨top_ne_bot, place_ne_bot _, bot_ne_top, place_ne_top _⟩, le_refl _, le_refl _⟩

theorem addSection (hstacks : bounds.Stacks opened) :
    (bounds.addSection?.getD bounds).Stacks (Trail.divide opened) := by
  obtain ⟨margin, cursor, whole, scopes⟩ := bounds
  obtain ⟨hmargin, hstacked⟩ := hstacks
  cases hstacked with
  | nil => exact ⟨hmargin, .nil _⟩
  | cons hdivided houter => exact ⟨hmargin, .cons hdivided.divide houter⟩

/-- A scope that is closed is drawn in the one around it. -/
theorem closeScope (hstacks : bounds.Stacks opened) {closed : ExactScope}
    (hclose : bounds.closeScope? = some (closed, rest)) :
    ∃ dividers outer, opened = dividers :: outer ∧ closed.Divided bounds.cursor dividers ∧
      rest.Stacks (Trail.mark outer) := by
  obtain ⟨inner, scopes, hscopes, rfl, rfl⟩ := closeScope?_eq_some hclose
  obtain ⟨hmargin, hstacked⟩ := hstacks
  rw [hscopes] at hstacked
  cases hstacked with
  | @cons _ _ dividers _ outer hdivided houter =>
      have hclosed : ({ inner with extent := inner.extent.expand bounds.margin } :
          ExactScope).Divided bounds.cursor dividers :=
        hdivided.widen (hdivided.tame.expand hmargin) (Box.le_expand _ hmargin)
      refine ⟨dividers, outer, rfl, hclosed, ?_⟩
      cases houter with
      | nil => exact ⟨hmargin, .nil _⟩
      | cons haround houter =>
          -- The closed extent reaches down to where its scope was opened, and all dividers of the
          -- scope around it lie above that line.
          have hincluded := haround.insert_drawn hclosed.tame.bounded hclosed.tame.stopY
          exact ⟨hmargin, .cons (hincluded.mono hdivided.openedAt) houter⟩

end Stacks

end Bounds

/-- The sections of the block begin in order below its upper edge, and above its lower edge if
something is drawn after they begin. -/
structure PlacedBlock.Divided (block : PlacedBlock ℚ ExactEdge) (dividers : List Bool) : Prop where
  sorted : block.sections.Pairwise fun first second => first.y ≤ second.y
  startY_le : ∀ placed ∈ block.sections, block.bounds.startY ≤ place placed.y
  le_stopY : List.Forall₂ (fun placed drawn => drawn = true → place placed.y ≤ block.bounds.stopY)
    block.sections dividers

/-- No position is lost if there are as many labels. -/
theorem map_y_placeBlock {block : OpenBlock} {sections : List ℚ} {bounds : Box ExactEdge}
    (hlength : sections.length = block.sectionLabels.length) :
    (Drawing.placeBlock block sections bounds).sections.map PlacedSection.y = sections := by
  calc
    (Drawing.placeBlock block sections bounds).sections.map PlacedSection.y =
        sections.zipWith (fun y _ => y) block.sectionLabels := List.map_zipWith
    _ = (sections.zip block.sectionLabels).map Prod.fst := by
      rw [← List.map_uncurry_zip_eq_zipWith]
      rfl
    _ = sections := List.map_fst_zip (Nat.le_of_eq hlength)

theorem Scope.Divided.placeBlock {scope : ExactScope} {limit : ℚ} {dividers : List Bool}
    (hdivided : scope.Divided limit dividers) {block : OpenBlock}
    (hlength : scope.sections.length = block.sectionLabels.length) {box : Box ExactEdge}
    (hstart : box.startY = scope.extent.startY) (hstop : box.stopY = scope.extent.stopY) :
    (Drawing.placeBlock block scope.sections box).Divided dividers := by
  have hsections : (Drawing.placeBlock block scope.sections box).sections.map PlacedSection.y =
      scope.sections := map_y_placeBlock hlength
  refine ⟨?_, ?_, ?_⟩
  · have hsorted := hdivided.sorted
    rwa [← hsections, List.pairwise_map] at hsorted
  · intro placed hmem
    have hy := hdivided.between placed.y (hsections ▸ List.mem_map_of_mem hmem)
    change box.startY ≤ _
    rw [hstart]
    exact hdivided.tame.startY.trans (place_le_place.mpr hy.1)
  · have hreached := hdivided.reached
    rw [← hsections, List.forall₂_map_left_iff, ← hstop] at hreached
    exact hreached

theorem boxAt_reaches (x1 y1 x2 y2 : ℚ) :
    place y1 ≤ (boxAt x1 y1 x2 y2 : Box ExactEdge).stopY ∧
      place y2 ≤ (boxAt x1 y1 x2 y2 : Box ExactEdge).stopY :=
  ⟨le_max_left _ _, le_max_right _ _⟩

namespace Drawing

variable {drawing later : Drawing ℚ ExactEdge} {pen : Pen ℚ} {trail : Trail}

/-- The drawing divides its blocks as the trail tells, those that are open and those that are
closed. -/
structure Stacks (trail : Trail) (drawing : Drawing ℚ ExactEdge) : Prop where
  bounds : drawing.bounds.Stacks trail.opened
  blocks : List.Forall₂ PlacedBlock.Divided drawing.blocks trail.closed

theorem Stacks.drawMessage (hstacks : drawing.Stacks trail) (hpen : pen.NonNegative)
    {message : Message} (hdraw : drawing.drawMessage pen message = .ok later) :
    later.Stacks (trail.follow (.message message)) := by
  have hself : (0 : ℚ) ≤ selfHeight := by norm_num [selfHeight]
  obtain ⟨source, target, text, down, box, -, -, hdown, rfl⟩ := drawMessage_eq_ok hdraw
  have hmoved := hstacks.bounds.advance (hpen.settings .messageMargin)
  rcases hdown with ⟨-, rfl, rfl⟩ | ⟨-, rfl, rfl⟩
  · have hdown := hmoved.advance hself
    exact ⟨hdown.insert_drawn (Box.bounded_boxAt ..) (boxAt_reaches ..).2, hstacks.blocks⟩
  · exact ⟨hmoved.insert_drawn (Box.bounded_boxAt ..) (boxAt_reaches ..).2, hstacks.blocks⟩

theorem Stacks.drawNote (hstacks : drawing.Stacks trail) (hpen : pen.NonNegative) {note : Note}
    (hdraw : drawing.drawNote pen note = .ok later) : later.Stacks (trail.follow (.note note)) := by
  obtain ⟨span, height, maxWidth, hheight, rfl⟩ := drawNote_eq_ok hdraw
  have hdown : 0 ≤ height := hheight ▸ noteHeight_nonneg hpen _ _ _
  have hmoved := hstacks.bounds.advance (hpen.settings .boxMargin)
  exact ⟨(hmoved.insert_drawn (Box.bounded_boxAt ..) (boxAt_reaches ..).1).advance hdown,
    hstacks.blocks⟩

theorem Stacks.endActivation (hstacks : drawing.Stacks trail) {name : String}
    {activation : OpenActivation ℚ}
    (hfound : drawing.openActivations.find? (·.actor = name) = some activation) :
    (drawing.endActivation name).Stacks (trail.follow (.activation .stop name)) := by
  obtain ⟨placed, hplaced, hended⟩ := endActivation_of_find? hfound
  have hcursor : drawing.cursor ≤ placed.stopY := by
    rw [hplaced]
    exact cursor_le_finishActivation activation drawing.cursor
  rw [hended]
  exact ⟨hstacks.bounds.insert_drawn (Box.bounded_boxAt ..)
    ((place_le_place.mpr hcursor).trans (boxAt_reaches ..).2), hstacks.blocks⟩

theorem Stacks.openBlock (hstacks : drawing.Stacks trail) (hpen : pen.NonNegative)
    (kind : BlockKind) (label : Option String) :
    (drawing.openBlock pen kind (label.getD "")).Stacks
      (trail.follow (.block (.opening kind) label)) := by
  have hboxMargin : 0 ≤ pen.settings.boxMargin := hpen.settings .boxMargin
  have hopened := (hstacks.bounds.advance hboxMargin).openScope
  exact ⟨hopened.advance (openingGap_nonneg hpen kind), hstacks.blocks⟩

theorem Stacks.divideBlock (hstacks : drawing.Stacks trail) (hpen : pen.NonNegative)
    {kind : SectionKind} {label : Option String}
    (hdraw : drawing.divideBlock pen kind (label.getD "") = .ok later) :
    later.Stacks (trail.follow (.block (.divider kind) label)) := by
  obtain ⟨inner, outer, -, -, rfl⟩ := divideBlock_eq_ok hdraw
  have hdivided := (hstacks.bounds.advance (labelledGap_nonneg hpen)).addSection
  exact ⟨hdivided.advance (hpen.settings .boxMargin), hstacks.blocks⟩

theorem Stacks.closeBlock (hstacks : drawing.Stacks trail) (hpen : pen.NonNegative)
    (hcounts : drawing.bounds.sectionCounts = drawing.openBlocks.map (·.sectionLabels.length))
    {kind : BlockKind} {label : Option String} (hdraw : drawing.closeBlock pen kind = .ok later) :
    later.Stacks (trail.follow (.block (.closing kind) label)) := by
  obtain ⟨inner, outer, scope, rest, box, bounds, hopen, -, hclose, hbounds, rfl⟩ :=
    closeBlock_eq_ok hdraw
  obtain ⟨dividers, others, hopened, hdivided, hrest⟩ := hstacks.bounds.closeScope hclose
  rw [Bounds.sectionCounts_closeScope? hclose, hopen, List.map_cons, List.cons.injEq] at hcounts
  have hbox : box.startY = scope.extent.startY ∧ box.stopY = scope.extent.stopY := by
    rcases hbounds with ⟨-, rfl, -⟩ | ⟨-, rfl, -⟩ <;> exact ⟨rfl, rfl⟩
  have hdown : bounds.Stacks (Trail.mark others) := by
    rcases hbounds with ⟨-, -, rfl⟩ | ⟨-, rfl, rfl⟩
    · exact hrest
    · exact hrest.insert (bounded_blockBox drawing pen hdivided.tame)
  have hplaced := hdivided.placeBlock hcounts.1 hbox.1 hbox.2
  obtain ⟨opened, closed⟩ := trail
  obtain rfl : opened = dividers :: others := hopened
  exact ⟨hdown.advance (hpen.settings .boxMargin),
    List.rel_append hstacks.blocks (.cons hplaced .nil)⟩

theorem Stacks.draw (hstacks : drawing.Stacks trail) (hpen : pen.NonNegative)
    (hcounts : drawing.bounds.sectionCounts = drawing.openBlocks.map (·.sectionLabels.length))
    {event : Event}
    (hopen : ∀ name, event = .activation .stop name →
      ∃ activation, drawing.openActivations.find? (·.actor = name) = some activation)
    (hdraw : drawing.draw pen event = .ok later) : later.Stacks (trail.follow event) := by
  cases event with
  | message message => exact hstacks.drawMessage hpen hdraw
  | note note => exact hstacks.drawNote hpen hdraw
  | activation edge name =>
      cases edge with
      | start =>
          obtain ⟨actor, activation, -, -, -, rfl⟩ := startActivation_eq_ok hdraw
          exact ⟨hstacks.bounds, hstacks.blocks⟩
      | stop =>
          obtain ⟨activation, hfound⟩ := hopen name rfl
          rw [← Except.ok.inj hdraw]
          exact hstacks.endActivation hfound
  | block marker label =>
      cases marker with
      | opening kind =>
          rw [← Except.ok.inj hdraw]
          exact hstacks.openBlock hpen kind label
      | divider kind => exact hstacks.divideBlock hpen hdraw
      | closing kind => exact hstacks.closeBlock hpen hcounts hdraw

theorem stacks_drawActors (hpen : pen.NonNegative) (actors : List Actor) :
    (drawActors pen actors : Drawing ℚ ExactEdge).Stacks { opened := [], closed := [] } := by
  obtain ⟨bounds, hmargin, -, hscopes, hdrawn⟩ := drawActors_eq pen actors
  have hboxMargin : 0 ≤ pen.settings.boxMargin := hpen.settings .boxMargin
  rw [hdrawn]
  refine ⟨⟨hboxMargin.trans hmargin.ge, ?_⟩, .nil⟩
  rw [hscopes]
  exact .nil _

end Drawing

/-- **Dividers in their blocks.** In every block of a chart, the sections begin in the order of
their dividers and below the upper edge of the block. A section begins above the lower edge if a
message, a note, the end of an activation or a whole block comes after its divider in the block. -/
theorem Chart.Built.sections_divided {chart : Chart} (hbuilt : chart.Built)
    {settings : Settings ℚ} (hsettings : settings.sequence.NonNegative) {measurer : Measurer ℚ}
    (hmeasurer : measurer.NonNegative) {layout : Layout ℚ ExactEdge}
    (hlayout : chart.diagram.layout settings measurer = .ok layout) :
    ∃ dividers, Divides chart.diagram.events dividers [] ∧
      List.Forall₂ PlacedBlock.Divided layout.blocks dividers := by
  have hpen : (Pen.ofSettings settings measurer).NonNegative := ⟨hsettings, hmeasurer⟩
  obtain ⟨drawing, hdraw, hfinish⟩ := Diagram.exists_drawing hlayout
  -- The labels are needed to lose no position, the activations for each end to be drawn.
  have hdrawn : drawing.Shows chart.diagram.actors chart.diagram.events ∧
      drawing.Paces chart.diagram.events ∧
      drawing.Stacks (chart.diagram.events.foldl Trail.follow { opened := [], closed := [] }) := by
    refine Drawing.drawAll_induction (motive := fun events drawing =>
      drawing.Shows chart.diagram.actors events ∧ drawing.Paces events ∧
        drawing.Stacks (events.foldl Trail.follow { opened := [], closed := [] }))
      ?_ (List.nil_append _) ⟨Drawing.shows_drawActors _ _, Drawing.paces_drawActors _ _,
        Drawing.stacks_drawActors hpen _⟩ hdraw
    rintro before event drawing later hbefore ⟨hshows, hpaces, hstacks⟩ hdraw
    have hfollow := hbuilt.balanced.follow _ hbefore
    refine ⟨hshows.draw hdraw, hpaces.draw hpen hfollow hdraw, ?_⟩
    rw [List.foldl_append]
    refine hstacks.draw hpen hshows.counts ?_ hdraw
    rintro name rfl
    exact hpaces.exists_open (hfollow name)
  obtain ⟨hshows, -, hstacks⟩ := hdrawn
  obtain ⟨-, -, -, -, hnests⟩ := hshows.finish hfinish
  obtain ⟨blocks, dividers, hdivides, hlength⟩ := hnests.exists_divides
  obtain rfl := List.length_eq_zero_iff.mp hlength
  refine ⟨blocks, hdivides, ?_⟩
  obtain ⟨-, -, -, hkept, -⟩ := Drawing.finish_keeps hfinish
  rw [hkept]
  have hblocks := hstacks.blocks
  rwa [hdivides.foldl_follow] at hblocks

/-- An alternative in which a loop is drawn after the first divider and nothing after the second. -/
def trailing : Chart :=
  Chart.empty.operateAll
    [.edit (.addActor "A" none), .edit (.addBlockMarker (.opening .alt) (some "one")),
      .edit (.addBlockMarker (.divider .altElse) (some "two")),
      .edit (.addBlockMarker (.opening .loop) none), .edit (.addBlockMarker (.closing .loop) none),
      .edit (.addBlockMarker (.divider .altElse) (some "three")),
      .edit (.addBlockMarker (.closing .alt) none)]

theorem built_trailing : trailing.Built :=
  Chart.Built.operateAll (.new .standard) _

theorem trailing_divided : ∃ layout : Layout ℚ ExactEdge,
    trailing.diagram.layout .exact Grid.standard.measurer = .ok layout ∧
      List.Forall₂ PlacedBlock.Divided layout.blocks [[], [true, false]] := by
  obtain ⟨layout, hlayout⟩ : ∃ layout : Layout ℚ ExactEdge,
      trailing.diagram.layout .exact Grid.standard.measurer = .ok layout :=
    Diagram.layout_eq_ok built_trailing.balanced.registered rfl .exact Grid.standard.measurer
  obtain ⟨dividers, hdivides, hblocks⟩ :=
    built_trailing.sections_divided Settings.nonNegative_exact Grid.nonNegative_standard hlayout
  have hclosed := congrArg Trail.closed (hdivides.foldl_follow { opened := [], closed := [] })
  have hdividers : (trailing.diagram.events.foldl Trail.follow
      { opened := [], closed := [] }).closed = [[], [true, false]] := by decide +kernel
  rw [hdividers] at hclosed
  rw [hclosed]
  exact ⟨layout, hlayout, hblocks⟩

/-- The last section begins below the block. -/
theorem trailing_sticks_out :
    trailing.Built ∧ Settings.exact.sequence.NonNegative ∧
      (Grid.standard : Grid ℚ).measurer.NonNegative ∧
      ∃ layout : Layout ℚ ExactEdge,
        trailing.diagram.layout .exact Grid.standard.measurer = .ok layout ∧
        ∃ block ∈ layout.blocks, ∃ placed ∈ block.sections,
          block.bounds.stopY < place placed.y := by
  refine ⟨built_trailing, Settings.nonNegative_exact, Grid.nonNegative_standard, ?_⟩
  have hsections : (trailing.diagram.layout .exact Grid.standard.measurer :
      Except LayoutError (Layout ℚ ExactEdge)).toOption.map (·.blocks.any fun block =>
        block.sections.any fun placed => decide (block.bounds.stopY < place placed.y)) =
      some true := by decide +kernel
  cases hlayout : (trailing.diagram.layout .exact Grid.standard.measurer :
      Except LayoutError (Layout ℚ ExactEdge)) with
  | error fault =>
      rw [hlayout] at hsections
      cases hsections
  | ok layout =>
      rw [hlayout] at hsections
      obtain ⟨block, hblock, hinside⟩ := List.any_eq_true.mp (Option.some.inj hsections)
      obtain ⟨placed, hplaced, hbelow⟩ := List.any_eq_true.mp hinside
      exact ⟨layout, rfl, block, hblock, placed, hplaced, of_decide_eq_true hbelow⟩

end SequenceChart
