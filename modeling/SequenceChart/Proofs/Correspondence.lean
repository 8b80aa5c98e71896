import SequenceChart.Proofs.Rendering
import SequenceChart.Proofs.Strokes

/-!
# What a layout shows

Apart from where things are placed, a layout tells what the diagram says: its actors, messages and
notes in order, and each block with the kind, the label and the sections that its markers give it.
The positions of sections are kept in the scopes of the bounds, and their labels with the open
blocks. There are always as many of the one as of the other, so that none is lost when a block is
closed.
-/

namespace SequenceChart

structure ActorOutline where
  name : String
  description : String
  role : ActorRole
  deriving DecidableEq, Repr

structure MessageOutline where
  kind : MessageKind
  source : String
  target : String
  text : String
  sequenceNumber : Option UInt32
  toSelf : Bool
  deriving DecidableEq, Repr

structure NoteOutline where
  placement : NotePlacement
  first : String
  second : String
  text : String
  deriving DecidableEq, Repr

structure BlockOutline where
  kind : BlockKind
  label : String
  /-- The labels of the sections after the first. -/
  sections : List String
  deriving DecidableEq, Repr

def Actor.outline (actor : Actor) : ActorOutline :=
  { name := actor.name, description := actor.description, role := actor.role }

def Message.outline (message : Message) : MessageOutline :=
  { kind := message.kind, source := message.source, target := message.target, text := message.text,
    sequenceNumber := message.sequenceNumber, toSelf := message.source = message.target }

def Note.outline (note : Note) : NoteOutline :=
  { placement := note.placement, first := note.first, second := note.second, text := note.text }

def OpenBlock.outline (block : OpenBlock) : BlockOutline :=
  { kind := block.kind, label := block.label, sections := block.sectionLabels }

section Placed

variable {α ε : Type}

def PlacedActor.outline (actor : PlacedActor α) : ActorOutline :=
  { name := actor.name, description := actor.description, role := actor.role }

def PlacedMessage.outline (message : PlacedMessage α) : MessageOutline :=
  { kind := message.kind, source := message.source, target := message.target, text := message.text,
    sequenceNumber := message.sequenceNumber, toSelf := message.toSelf }

def PlacedNote.outline (note : PlacedNote α) : NoteOutline :=
  { placement := note.placement, first := note.first, second := note.second, text := note.text }

def PlacedBlock.outline (block : PlacedBlock α ε) : BlockOutline :=
  { kind := block.kind, label := block.label, sections := block.sections.map PlacedSection.label }

end Placed

def Event.note? : Event → Option Note
  | note placed => some placed
  | _ => none

def Diagram.notes (diagram : Diagram) : List Note :=
  diagram.events.filterMap Event.note?

/-- The kind of the block that the event closes. -/
def Event.closedKind? : Event → Option BlockKind
  | block (.closing kind) _ => some kind
  | _ => none

def Event.isMarker : Event → Bool
  | block _ _ => true
  | _ => false

/-- Events that nest in a block of the kind `around`, or outside of all blocks, with the blocks that
they close and the labels of the dividers that belong to the block around them. A block that is
closed comes after the blocks inside it. -/
inductive NestsIn : Option BlockKind → List Event → List BlockOutline → List String → Prop
  | nil (around : Option BlockKind) : NestsIn around [] [] []
  | plain {around : Option BlockKind} {event : Event} {events : List Event}
      {blocks : List BlockOutline} {sections : List String} :
      event.isMarker = false → NestsIn around events blocks sections →
      NestsIn around (event :: events) blocks sections
  | divider {divider : SectionKind} {label : Option String} {events : List Event}
      {blocks : List BlockOutline} {sections : List String} :
      NestsIn (some divider.block) events blocks sections →
      NestsIn (some divider.block) (.block (.divider divider) label :: events) blocks
        (label.getD "" :: sections)
  | block {around : Option BlockKind} {kind : BlockKind} {label closingLabel : Option String}
      {inside events : List Event} {inner blocks : List BlockOutline}
      {innerSections sections : List String} :
      NestsIn (some kind) inside inner innerSections → NestsIn around events blocks sections →
      NestsIn around
        (.block (.opening kind) label :: (inside ++ .block (.closing kind) closingLabel :: events))
        (inner ++ { kind, label := label.getD "", sections := innerSections } :: blocks) sections

namespace NestsIn

variable {around : Option BlockKind} {left right : List Event}
  {leftBlocks rightBlocks : List BlockOutline} {leftSections rightSections : List String}

theorem append (hleft : NestsIn around left leftBlocks leftSections)
    (hright : NestsIn around right rightBlocks rightSections) :
    NestsIn around (left ++ right) (leftBlocks ++ rightBlocks) (leftSections ++ rightSections) := by
  induction hleft with
  | nil => exact hright
  | plain hmarker _ ih => exact .plain hmarker (ih hright)
  | divider _ ih => exact .divider (ih hright)
  | @block _ _ _ _ inside _ inner _ _ _ hinside _ _ ih =>
      rw [List.cons_append, List.append_assoc, List.append_assoc, List.cons_append,
        List.cons_append]
      exact .block hinside (ih hright)

theorem kinds {events : List Event} {blocks : List BlockOutline} {sections : List String}
    (hnests : NestsIn around events blocks sections) :
    blocks.map BlockOutline.kind = events.filterMap Event.closedKind? := by
  induction hnests with
  | nil => rfl
  | @plain _ event _ _ _ hmarker _ ih =>
      have hnone : event.closedKind? = none := by
        cases event with
        | block => cases hmarker
        | message | note | activation => rfl
      rw [List.filterMap_cons_none hnone, ih]
  | divider _ ih => exact ih
  | block _ _ ihInside ih =>
      rw [List.map_append, List.map_cons, ihInside, ih, List.filterMap_cons_none rfl,
        List.filterMap_append]
      rfl

end NestsIn

/-- Events that leave blocks open, the innermost first, with the blocks that they close. -/
inductive Leaves : List Event → List BlockOutline → List OpenBlock → Prop
  | outside {events : List Event} {blocks : List BlockOutline} :
      NestsIn none events blocks [] → Leaves events blocks []
  | inside {before events : List Event} {beforeBlocks blocks : List BlockOutline}
      {kind : BlockKind} {label : Option String} {sections : List String}
      {outer : List OpenBlock} :
      Leaves before beforeBlocks outer → NestsIn (some kind) events blocks sections →
      Leaves (before ++ .block (.opening kind) label :: events) (beforeBlocks ++ blocks)
        ({ kind, label := label.getD "", sectionLabels := sections } :: outer)

namespace Leaves

variable {events more : List Event} {blocks moreBlocks : List BlockOutline}
  {inner : OpenBlock} {outer opened : List OpenBlock}

/-- Events without dividers of their own extend the innermost block that is open. -/
theorem append (hleaves : Leaves events blocks opened)
    (hmore : NestsIn (opened.head?.map OpenBlock.kind) more moreBlocks []) :
    Leaves (events ++ more) (blocks ++ moreBlocks) opened := by
  cases hleaves with
  | outside hnests => exact .outside (hnests.append hmore)
  | inside hbefore hnests =>
      have hwhole := hnests.append hmore
      rw [List.append_nil] at hwhole
      rw [List.append_assoc, List.append_assoc, List.cons_append]
      exact .inside hbefore hwhole

theorem nests (hleaves : Leaves events blocks []) : NestsIn none events blocks [] := by
  cases hleaves with
  | outside hnests => exact hnests

theorem plain (hleaves : Leaves events blocks opened) {event : Event}
    (hmarker : event.isMarker = false) : Leaves (events ++ [event]) blocks opened := by
  have hwhole := hleaves.append (.plain hmarker (.nil _))
  rwa [List.append_nil] at hwhole

theorem opening (hleaves : Leaves events blocks opened) (kind : BlockKind)
    (label : Option String) :
    Leaves (events ++ [.block (.opening kind) label]) blocks
      ({ kind, label := label.getD "", sectionLabels := [] } :: opened) := by
  have hwhole : Leaves (events ++ .block (.opening kind) label :: []) (blocks ++ [])
      ({ kind, label := label.getD "", sectionLabels := [] } :: opened) :=
    .inside hleaves (.nil (some kind))
  rwa [List.append_nil] at hwhole

theorem divider (hleaves : Leaves events blocks (inner :: outer)) {divider : SectionKind}
    (hkind : inner.kind = divider.block) (label : Option String) :
    Leaves (events ++ [.block (.divider divider) label]) blocks
      ({ inner with sectionLabels := inner.sectionLabels ++ [label.getD ""] } :: outer) := by
  cases hleaves with
  | inside hbefore hnests =>
      obtain rfl := hkind
      have hdivider : NestsIn (some divider.block) [.block (.divider divider) label] []
          [label.getD ""] := .divider (.nil _)
      have hwhole := hnests.append hdivider
      rw [List.append_nil] at hwhole
      rw [List.append_assoc, List.cons_append]
      exact .inside hbefore hwhole

theorem closing (hleaves : Leaves events blocks (inner :: outer)) (label : Option String) :
    Leaves (events ++ [.block (.closing inner.kind) label]) (blocks ++ [inner.outline]) outer := by
  cases hleaves with
  | inside hbefore hnests =>
      rw [List.append_assoc, List.append_assoc, List.cons_append]
      exact hbefore.append (.block hnests (.nil _))

end Leaves

/-! ### Drawing

A divider adds a position to the innermost scope and a label to the innermost block. Other events
keep both counts, or begin and end them together, so that they agree where a block is closed. -/

variable {α ε : Type}

/-- A block that has as many positions as labels loses no section. -/
theorem placeBlock_outline {block : OpenBlock} {sections : List α} {bounds : Box ε}
    (hlength : sections.length = block.sectionLabels.length) :
    (Drawing.placeBlock block sections bounds).outline = block.outline := by
  have hlabels : (Drawing.placeBlock block sections bounds).sections.map PlacedSection.label =
      block.sectionLabels := by
    calc
      (Drawing.placeBlock block sections bounds).sections.map PlacedSection.label =
          sections.zipWith (fun _ label => label) block.sectionLabels := List.map_zipWith
      _ = (sections.zip block.sectionLabels).map Prod.snd := by
        rw [← List.map_uncurry_zip_eq_zipWith]
        rfl
      _ = block.sectionLabels := List.map_snd_zip (Nat.le_of_eq hlength.symm)
  rw [PlacedBlock.outline, hlabels]
  rfl

namespace Bounds

/-- How many sections have begun in each open scope. -/
def sectionCounts (bounds : Bounds α ε) : List Nat :=
  bounds.scopes.map (·.sections.length)

theorem sectionCounts_addSection? {bounds : Bounds α ε} {count : Nat} {counts : List Nat}
    (hcounts : bounds.sectionCounts = count :: counts) :
    (bounds.addSection?.getD bounds).sectionCounts = (count + 1) :: counts := by
  unfold addSection?
  split
  · rename_i hscopes
    simp [sectionCounts, hscopes] at hcounts
  · rename_i hscopes
    simpa [sectionCounts, hscopes] using hcounts

variable [Edge ε]

theorem sectionCounts_insert (bounds : Bounds α ε) (box : Box ε) :
    (bounds.insert box).sectionCounts = bounds.sectionCounts := by
  simp [sectionCounts, insert, Scope.include]

theorem sectionCounts_includeInner (bounds : Bounds α ε) (box : Box ε) :
    (bounds.includeInner box).sectionCounts = bounds.sectionCounts := by
  unfold includeInner
  split
  · rename_i hscopes
    simp [sectionCounts, hscopes]
  · rename_i hscopes
    simp [sectionCounts, hscopes, Scope.include]

theorem sectionCounts_closeScope? [Placing α ε] {bounds rest : Bounds α ε} {closed : Scope α ε}
    (hclose : bounds.closeScope? = some (closed, rest)) :
    bounds.sectionCounts = closed.sections.length :: rest.sectionCounts := by
  unfold closeScope? at hclose
  split at hclose
  · cases hclose
  · rename_i hscopes
    obtain ⟨rfl, rfl⟩ := Prod.mk.inj (Option.some.inj hclose)
    rw [sectionCounts_includeInner]
    simp [sectionCounts, hscopes]

end Bounds

namespace Drawing

/-- The drawing shows the actors and the events. The open scopes of its bounds have as many sections
as the open blocks have labels for them. -/
structure Shows (actors : List Actor) (events : List Event) (drawing : Drawing α ε) : Prop where
  actors : drawing.actors.map PlacedActor.outline = actors.map Actor.outline
  messages : drawing.messages.map PlacedMessage.outline =
    (events.filterMap Event.message?).map Message.outline
  notes : drawing.notes.map PlacedNote.outline = (events.filterMap Event.note?).map Note.outline
  blocks : Leaves events (drawing.blocks.map PlacedBlock.outline) drawing.openBlocks
  counts : drawing.bounds.sectionCounts = drawing.openBlocks.map (·.sectionLabels.length)

variable {actors : List Actor} {events : List Event} {drawing later : Drawing α ε}

theorem Shows.congr {other : Drawing α ε} (hshows : drawing.Shows actors events)
    (hactors : other.actors = drawing.actors) (hmessages : other.messages = drawing.messages)
    (hnotes : other.notes = drawing.notes) (hblocks : other.blocks = drawing.blocks)
    (hopen : other.openBlocks = drawing.openBlocks)
    (hcounts : other.bounds.sectionCounts = drawing.bounds.sectionCounts) :
    other.Shows actors events := by
  refine ⟨?_, ?_, ?_, ?_, ?_⟩
  · rw [hactors, hshows.actors]
  · rw [hmessages, hshows.messages]
  · rw [hnotes, hshows.notes]
  · rw [hblocks, hopen]
    exact hshows.blocks
  · rw [hcounts, hopen, hshows.counts]

/-- One more event, with what is drawn of it. -/
theorem Shows.add (hshows : drawing.Shows actors events) {event : Event}
    (hactors : later.actors = drawing.actors)
    (hmessages : later.messages.map PlacedMessage.outline =
      drawing.messages.map PlacedMessage.outline ++ event.message?.toList.map Message.outline)
    (hnotes : later.notes.map PlacedNote.outline =
      drawing.notes.map PlacedNote.outline ++ event.note?.toList.map Note.outline)
    (hblocks : Leaves (events ++ [event]) (later.blocks.map PlacedBlock.outline) later.openBlocks)
    (hcounts : later.bounds.sectionCounts = later.openBlocks.map (·.sectionLabels.length)) :
    later.Shows actors (events ++ [event]) := by
  have hone {β : Type} (view : Event → Option β) :
      (events ++ [event]).filterMap view = events.filterMap view ++ (view event).toList := by
    rw [List.filterMap_append]
    cases hview : view event with
    | none => rw [List.filterMap_cons_none hview]; rfl
    | some value => rw [List.filterMap_cons_some hview]; rfl
  refine ⟨?_, ?_, ?_, hblocks, hcounts⟩
  · rw [hactors]
    exact hshows.actors
  · rw [hmessages, hshows.messages, hone, List.map_append]
  · rw [hnotes, hshows.notes, hone, List.map_append]

/-- Of an activation, nothing but its place is drawn. -/
theorem Shows.withActivation (hshows : drawing.Shows actors events) (edge : ActivationEdge)
    (name : String) : drawing.Shows actors (events ++ [.activation edge name]) :=
  hshows.add rfl (List.append_nil _).symm (List.append_nil _).symm (hshows.blocks.plain rfl)
    hshows.counts

theorem Shows.withMessage (hshows : drawing.Shows actors events) {placed : PlacedMessage α}
    {message : Message} (houtline : placed.outline = message.outline) :
    ({ drawing with messages := drawing.messages ++ [placed] } : Drawing α ε).Shows actors
      (events ++ [.message message]) := by
  refine hshows.add rfl ?_ (List.append_nil _).symm (hshows.blocks.plain rfl) hshows.counts
  rw [List.map_append]
  exact congrArg (_ ++ [·]) houtline

theorem Shows.withNote (hshows : drawing.Shows actors events) {placed : PlacedNote α}
    {note : Note} (houtline : placed.outline = note.outline) :
    ({ drawing with notes := drawing.notes ++ [placed] } : Drawing α ε).Shows actors
      (events ++ [.note note]) := by
  refine hshows.add rfl (List.append_nil _).symm ?_ (hshows.blocks.plain rfl) hshows.counts
  rw [List.map_append]
  exact congrArg (_ ++ [·]) houtline

theorem Shows.withMarker (hshows : drawing.Shows actors events) {marker : BlockMarker}
    {label : Option String} {blocks : List (PlacedBlock α ε)} {openBlocks : List OpenBlock}
    {bounds : Bounds α ε}
    (hblocks : Leaves (events ++ [.block marker label]) (blocks.map PlacedBlock.outline) openBlocks)
    (hcounts : bounds.sectionCounts = openBlocks.map (·.sectionLabels.length)) :
    ({ drawing with bounds, blocks, openBlocks } : Drawing α ε).Shows actors
      (events ++ [.block marker label]) :=
  hshows.add rfl (List.append_nil _).symm (List.append_nil _).symm hblocks hcounts

variable [Edge ε]

theorem Shows.insert (hshows : drawing.Shows actors events) (box : Box ε) :
    (drawing.insert box).Shows actors events :=
  hshows.congr rfl rfl rfl rfl rfl (Bounds.sectionCounts_insert ..)

variable [Scale α] [Placing α ε]

theorem Shows.advance (hshows : drawing.Shows actors events) (distance : α) :
    (drawing.advance distance).Shows actors events :=
  hshows.congr rfl rfl rfl rfl rfl rfl

theorem placeActors_outline (pen : Pen α) (y x : α) (actors : List Actor) :
    (placeActors pen y x actors).map PlacedActor.outline = actors.map Actor.outline := by
  induction actors generalizing x with
  | nil => rfl
  | cons actor rest ih =>
      rw [placeActors, List.map_cons, List.map_cons, ih]
      rfl

theorem shows_drawActors (pen : Pen α) (actors : List Actor) :
    (drawActors pen actors : Drawing α ε).Shows actors [] := by
  obtain ⟨bounds, -, -, hscopes, hdrawn⟩ := drawActors_eq pen actors
  rw [hdrawn]
  exact ⟨placeActors_outline pen _ _ _, rfl, rfl, .outside (.nil none),
    List.map_eq_nil_iff.mpr hscopes⟩

theorem Shows.drawMessage (hshows : drawing.Shows actors events) {pen : Pen α} {message : Message}
    (hdraw : drawing.drawMessage pen message = .ok later) :
    later.Shows actors (events ++ [.message message]) := by
  have hmoved := hshows.advance pen.settings.messageMargin
  obtain ⟨source, target, text, down, box, -, -, hdown, rfl⟩ := drawMessage_eq_ok hdraw
  rcases hdown with ⟨-, rfl, -⟩ | ⟨-, rfl, -⟩
  · exact Shows.withMessage ((hmoved.advance selfHeight).insert box) rfl
  · exact Shows.withMessage (hmoved.insert box) rfl

theorem Shows.drawNote (hshows : drawing.Shows actors events) {pen : Pen α} {note : Note}
    (hdraw : drawing.drawNote pen note = .ok later) :
    later.Shows actors (events ++ [.note note]) := by
  have hmoved := hshows.advance pen.settings.boxMargin
  obtain ⟨span, height, maxWidth, -, rfl⟩ := drawNote_eq_ok hdraw
  exact Shows.withNote ((hmoved.insert _).advance height) rfl

omit [Edge ε] [Placing α ε] in
theorem Shows.startActivation (hshows : drawing.Shows actors events) {pen : Pen α} {name : String}
    (hdraw : drawing.startActivation pen name = .ok later) :
    later.Shows actors (events ++ [.activation .start name]) := by
  obtain ⟨actor, activation, -, -, -, rfl⟩ := startActivation_eq_ok hdraw
  exact (hshows.withActivation .start name).congr rfl rfl rfl rfl rfl rfl

theorem Shows.endActivation (hshows : drawing.Shows actors events) (name : String) :
    (drawing.endActivation name).Shows actors (events ++ [.activation .stop name]) := by
  have hended := hshows.withActivation .stop name
  unfold Drawing.endActivation
  split
  · exact hended
  · exact (hended.insert _).congr rfl rfl rfl rfl rfl rfl

theorem Shows.openBlock (hshows : drawing.Shows actors events) (pen : Pen α) (kind : BlockKind)
    (label : Option String) :
    (drawing.openBlock pen kind (label.getD "")).Shows actors
      (events ++ [.block (.opening kind) label]) := by
  have hmoved := hshows.advance pen.settings.boxMargin
  exact hmoved.withMarker (hmoved.blocks.opening kind label) (congrArg (0 :: ·) hmoved.counts)

theorem Shows.divideBlock (hshows : drawing.Shows actors events) {pen : Pen α} {kind : SectionKind}
    {label : Option String} (hdraw : drawing.divideBlock pen kind (label.getD "") = .ok later) :
    later.Shows actors (events ++ [.block (.divider kind) label]) := by
  have hmoved := hshows.advance (labelledGap pen.settings)
  obtain ⟨inner, outer, hopen, hkind, rfl⟩ := divideBlock_eq_ok hdraw
  have hblocks := hmoved.blocks
  have hcounts := hmoved.counts
  have hadvanced : (drawing.advance (labelledGap pen.settings)).openBlocks = inner :: outer := hopen
  rw [hadvanced] at hblocks hcounts
  refine Shows.advance (hmoved.withMarker (hblocks.divider hkind label) ?_) _
  rw [Bounds.sectionCounts_addSection? hcounts, List.map_cons, List.length_append]
  rfl

theorem Shows.closeBlock (hshows : drawing.Shows actors events) {pen : Pen α} {kind : BlockKind}
    (label : Option String) (hdraw : drawing.closeBlock pen kind = .ok later) :
    later.Shows actors (events ++ [.block (.closing kind) label]) := by
  obtain ⟨inner, outer, scope, rest, box, bounds, hopen, rfl, hclose, hbounds, rfl⟩ :=
    closeBlock_eq_ok hdraw
  have hblocks := hshows.blocks
  have hcounts := hshows.counts
  rw [hopen] at hblocks hcounts
  rw [Bounds.sectionCounts_closeScope? hclose, List.map_cons, List.cons.injEq] at hcounts
  have hrest : bounds.sectionCounts = rest.sectionCounts := by
    rcases hbounds with ⟨-, -, rfl⟩ | ⟨-, -, rfl⟩
    · rfl
    · exact Bounds.sectionCounts_insert ..
  refine Shows.advance (hshows.withMarker ?_ (hrest.trans hcounts.2)) _
  rw [List.map_append, List.map_singleton, placeBlock_outline hcounts.1]
  exact hblocks.closing label

theorem Shows.draw (hshows : drawing.Shows actors events) {pen : Pen α} {event : Event}
    (hdraw : drawing.draw pen event = .ok later) : later.Shows actors (events ++ [event]) := by
  cases event with
  | message message => exact hshows.drawMessage hdraw
  | note note => exact hshows.drawNote hdraw
  | activation edge name =>
      cases edge with
      | start => exact hshows.startActivation hdraw
      | stop =>
          rw [← Except.ok.inj hdraw]
          exact hshows.endActivation name
  | block marker label =>
      cases marker with
      | opening kind =>
          rw [← Except.ok.inj hdraw]
          exact hshows.openBlock pen kind label
      | divider kind => exact hshows.divideBlock hdraw
      | closing kind => exact hshows.closeBlock label hdraw

theorem Shows.drawAll (hshows : drawing.Shows actors events) {pen : Pen α} {more : List Event}
    (hdraw : more.foldlM (Drawing.draw pen) drawing = .ok later) :
    later.Shows actors (events ++ more) :=
  drawAll_induction (fun _ hshows hdraw => hshows.draw hdraw) rfl hshows hdraw

/-- What is drawn is shown by the layout, and the actors once more if that is asked for. -/
theorem Shows.finish (hshows : drawing.Shows actors events) {pen : Pen α} {title : Option String}
    {layout : Layout α ε} (hfinish : drawing.finish pen title = .ok layout) :
    layout.actors.map PlacedActor.outline = actors.map Actor.outline ∧
      layout.mirroredActors.map PlacedActor.outline =
        (if pen.settings.mirrorActors then actors.map Actor.outline else []) ∧
      layout.messages = drawing.messages ∧ layout.notes = drawing.notes ∧
      NestsIn none events (layout.blocks.map PlacedBlock.outline) [] := by
  obtain ⟨hactors, hmessages, hnotes, hblocks, -, y, hmirrored⟩ := finish_keeps hfinish
  have hleaves := hshows.blocks
  rw [(finish_eq_ok hfinish).1, ← hblocks] at hleaves
  refine ⟨hactors ▸ hshows.actors, ?_, hmessages, hnotes, hleaves.nests⟩
  rw [hmirrored, ← hshows.actors]
  split
  · exact List.map_map
  · rfl

end Drawing

variable [Scale α] [Edge ε] [Placing α ε]

/-- **A layout shows its diagram.** Actors, messages and notes come in order, with what the registry
and the events say of them. Each closing marker gives a block, in order, with the kind and the label
of the opening marker that it matches and with a section for each divider of its own. -/
theorem Diagram.layout_shows {diagram : Diagram} {settings : Settings α} {measurer : Measurer α}
    {layout : Layout α ε} (hlayout : diagram.layout settings measurer = .ok layout) :
    layout.messages.map PlacedMessage.outline = diagram.messages.map Message.outline ∧
      layout.notes.map PlacedNote.outline = diagram.notes.map Note.outline ∧
      layout.actors.map PlacedActor.outline = diagram.actors.map Actor.outline ∧
      layout.mirroredActors.map PlacedActor.outline =
        (if settings.sequence.mirrorActors then diagram.actors.map Actor.outline else []) ∧
      layout.blocks.map PlacedBlock.kind = diagram.events.filterMap Event.closedKind? ∧
      NestsIn none diagram.events (layout.blocks.map PlacedBlock.outline) [] := by
  unfold Diagram.layout at hlayout
  dsimp only at hlayout
  cases hdraw : diagram.events.foldlM (Drawing.draw (Pen.ofSettings settings measurer))
      (Drawing.drawActors (Pen.ofSettings settings measurer) diagram.actors : Drawing α ε) with
  | error fault =>
      rw [hdraw] at hlayout
      cases hlayout
  | ok drawing =>
      rw [hdraw] at hlayout
      have hshows := (Drawing.shows_drawActors _ diagram.actors).drawAll hdraw
      rw [List.nil_append] at hshows
      obtain ⟨hactors, hmirrored, hmessages, hnotes, hnests⟩ := hshows.finish hlayout
      refine ⟨?_, ?_, hactors, hmirrored, ?_, hnests⟩
      · rw [hmessages]
        exact hshows.messages
      · rw [hnotes]
        exact hshows.notes
      · rw [← hnests.kinds, List.map_map]
        rfl

/-- A loop in the second part of an alternative. -/
def alternatives : Diagram :=
  ((((((Diagram.empty.addBlockMarker (.opening .alt) (some "sunny")).addMessage false "A" "A" .solid
    "go").addBlockMarker (.divider .altElse) (some "rainy")).addBlockMarker (.opening .loop)
    none).addNote false .leftOf "A" none "wait").addBlockMarker (.closing .loop)
    none).addBlockMarker (.closing .alt) none

theorem alternatives_layout_shows : ∃ layout : Layout Float Float,
    alternatives.layout .standard Grid.standard.measurer = .ok layout ∧
      layout.messages.map PlacedMessage.toSelf = [true] ∧
      layout.blocks.map PlacedBlock.kind = [.loop, .alt] := by
  have hregistered : alternatives.Registered := by
    unfold Diagram.Registered
    decide +kernel
  obtain ⟨layout, hlayout⟩ : ∃ layout : Layout Float Float,
      alternatives.layout .standard Grid.standard.measurer = .ok layout :=
    Diagram.layout_eq_ok hregistered rfl .standard Grid.standard.measurer
  obtain ⟨hmessages, -, -, -, hkinds, -⟩ := Diagram.layout_shows hlayout
  refine ⟨layout, hlayout, ?_, ?_⟩
  · have hself := congrArg (List.map MessageOutline.toSelf) hmessages
    rw [List.map_map] at hself
    exact hself.trans (by decide +kernel)
  · exact hkinds.trans (by decide +kernel)

end SequenceChart
