import SequenceChart.Proofs.Nesting
import SequenceChart.Proofs.Phases
import SequenceChart.Renderer

/-!
# What is read can be drawn

A drawing keeps one open block, and one open scope of its bounds, for each block that the events
leave open. So it accepts exactly the events that nest, and names the same fault where they do not.
Whatever is read without a fault nests and names registered actors only, and is drawn.
-/

namespace SequenceChart

variable {α ε : Type} [Scale α] [Edge ε] [Placing α ε]

namespace Bounds

omit [Edge ε] [Placing α ε] [Scale α] in
theorem length_addSection (bounds : Bounds α ε) :
    (bounds.addSection?.getD bounds).scopes.length = bounds.scopes.length := by
  unfold addSection?
  split <;> simp_all

omit [Scale α] [Placing α ε] in
theorem length_includeInner (bounds : Bounds α ε) (box : Box ε) :
    (bounds.includeInner box).scopes.length = bounds.scopes.length := by
  unfold includeInner
  split <;> simp_all

omit [Scale α] in
theorem closeScope?_of_scopes {bounds : Bounds α ε} {inner : Scope α ε}
    {outer : List (Scope α ε)} (hscopes : bounds.scopes = inner :: outer) :
    ∃ closed rest, bounds.closeScope? = some (closed, rest) ∧
      rest.scopes.length = outer.length := by
  unfold closeScope?
  simp only [hscopes]
  exact ⟨_, _, rfl, length_includeInner _ _⟩

end Bounds

namespace Drawing

/-- The drawing knows the actors `names`, and holds blocks of the kinds `opened` open. -/
structure Tracks (names : List String) (opened : List BlockKind) (drawing : Drawing α ε) :
    Prop where
  actors : drawing.actors.map PlacedActor.name = names
  blocks : drawing.openBlocks.map OpenBlock.kind = opened
  scopes : drawing.bounds.scopes.length = opened.length

/-- Drawing comes to the same end as nesting: a drawing that tracks the open blocks, or the same
error. -/
def Follows (names : List String) :
    Except LayoutError (Drawing α ε) → Except LayoutError (List BlockKind) → Prop
  | .ok drawing, .ok opened => drawing.Tracks names opened
  | .error left, .error right => left = right
  | _, _ => False

variable {names : List String} {opened : List BlockKind} {drawing : Drawing α ε}

omit [Scale α] [Edge ε] [Placing α ε] in
theorem Follows.eq_error {drawn : Except LayoutError (Drawing α ε)} {fault : LayoutError}
    (hfollows : Follows names drawn (.error fault)) : drawn = .error fault := by
  cases drawn with
  | error other => exact congrArg Except.error hfollows
  | ok drawing => exact hfollows.elim

omit [Scale α] [Edge ε] [Placing α ε] in
theorem Follows.eq_ok {drawn : Except LayoutError (Drawing α ε)}
    (hfollows : Follows names drawn (.ok opened)) :
    ∃ drawing, drawn = .ok drawing ∧ drawing.Tracks names opened := by
  cases drawn with
  | error fault => exact hfollows.elim
  | ok drawing => exact ⟨drawing, rfl, hfollows⟩

omit [Scale α] [Edge ε] [Placing α ε] in
theorem Tracks.congr {other : Drawing α ε} (htracks : drawing.Tracks names opened)
    (hactors : other.actors = drawing.actors) (hblocks : other.openBlocks = drawing.openBlocks)
    (hscopes : other.bounds.scopes.length = drawing.bounds.scopes.length) :
    other.Tracks names opened :=
  ⟨hactors ▸ htracks.actors, hblocks ▸ htracks.blocks, hscopes ▸ htracks.scopes⟩

theorem Tracks.advance (htracks : drawing.Tracks names opened) (distance : α) :
    (drawing.advance distance).Tracks names opened :=
  htracks.congr rfl rfl rfl

omit [Scale α] [Placing α ε] in
theorem Tracks.insert (htracks : drawing.Tracks names opened) (box : Box ε) :
    (drawing.insert box).Tracks names opened :=
  htracks.congr rfl rfl (List.length_map _)

omit [Edge ε] [Placing α ε] in
theorem placeActors_names (pen : Pen α) (y x : α) (actors : List Actor) :
    (placeActors pen y x actors).map PlacedActor.name = actors.map Actor.name := by
  induction actors generalizing x with
  | nil => rfl
  | cons actor rest ih => simp only [placeActors, List.map_cons, ih]

theorem Tracks.insertActors (htracks : drawing.Tracks names opened)
    (actors : List (PlacedActor α)) : (drawing.insertActors actors).Tracks names opened := by
  unfold Drawing.insertActors
  induction actors generalizing drawing with
  | nil => exact htracks
  | cons actor rest ih => exact ih (htracks.insert (actorBox actor))

theorem drawActors_tracks (pen : Pen α) (diagram : Diagram) :
    (drawActors pen diagram.actors : Drawing α ε).Tracks diagram.names [] := by
  refine Tracks.advance (Tracks.insertActors ?_ _) _
  exact ⟨placeActors_names pen _ _ _, rfl, rfl⟩

omit [Scale α] [Edge ε] [Placing α ε] in
theorem Tracks.actor_eq_ok (htracks : drawing.Tracks names opened) {name : String}
    (hname : name ∈ names) : ∃ actor, drawing.actor name = .ok actor := by
  rw [← htracks.actors] at hname
  obtain ⟨actor, hactor, heq⟩ := List.mem_map.mp hname
  obtain ⟨found, hfound⟩ : ∃ found, drawing.actors.find? (·.name = name) = some found := by
    rw [← Option.isSome_iff_exists, List.find?_isSome]
    exact ⟨actor, hactor, by simpa using heq⟩
  exact ⟨found, by simp [Drawing.actor, hfound]⟩

omit [Edge ε] [Placing α ε] in
theorem Tracks.lineSpan_eq_ok (htracks : drawing.Tracks names opened) {name : String}
    (hname : name ∈ names) : ∃ span, drawing.lineSpan name = .ok span := by
  obtain ⟨actor, hactor⟩ := htracks.actor_eq_ok hname
  exact ⟨_, by simp only [lineSpan, hactor]; rfl⟩

theorem Tracks.drawMessage (htracks : drawing.Tracks names opened) (pen : Pen α)
    {message : Message} (hsource : message.source ∈ names) (htarget : message.target ∈ names) :
    ∃ later, drawing.drawMessage pen message = .ok later ∧ later.Tracks names opened := by
  have hmoved := htracks.advance pen.settings.messageMargin
  obtain ⟨source, hsource⟩ := hmoved.lineSpan_eq_ok hsource
  obtain ⟨target, htarget⟩ := hmoved.lineSpan_eq_ok htarget
  refine ⟨_, by simp only [Drawing.drawMessage, hsource, htarget]; rfl, ?_⟩
  have hturned : (if message.source = message.target then
      (drawing.advance pen.settings.messageMargin).advance selfHeight
      else drawing.advance pen.settings.messageMargin).Tracks names opened := by
    split
    · exact hmoved.advance selfHeight
    · exact hmoved
  simp only [decide_eq_true_eq]
  exact ⟨hturned.actors, hturned.blocks, (List.length_map _).trans hturned.scopes⟩

theorem Tracks.drawNote (htracks : drawing.Tracks names opened) (pen : Pen α) {note : Note}
    (hfirst : note.first ∈ names) (hsecond : note.second ∈ names) :
    ∃ later, drawing.drawNote pen note = .ok later ∧ later.Tracks names opened := by
  have hmoved := htracks.advance pen.settings.boxMargin
  obtain ⟨first, hfirst⟩ := hmoved.actor_eq_ok hfirst
  obtain ⟨second, hsecond⟩ := hmoved.actor_eq_ok hsecond
  refine ⟨_, by simp only [Drawing.drawNote, hfirst, hsecond]; rfl, ?_⟩
  exact Tracks.congr ((hmoved.insert _).advance _) rfl rfl rfl

omit [Edge ε] [Placing α ε] in
theorem Tracks.startActivation (htracks : drawing.Tracks names opened) (pen : Pen α)
    {name : String} (hname : name ∈ names) :
    ∃ later, drawing.startActivation pen name = .ok later ∧ later.Tracks names opened := by
  obtain ⟨actor, hactor⟩ := htracks.actor_eq_ok hname
  refine ⟨_, by simp only [Drawing.startActivation, hactor]; rfl, ?_⟩
  exact htracks.congr rfl rfl rfl

theorem Tracks.endActivation (htracks : drawing.Tracks names opened) (name : String) :
    (drawing.endActivation name).Tracks names opened := by
  unfold Drawing.endActivation
  split
  · exact htracks
  · exact Tracks.congr htracks rfl rfl (List.length_map _)

theorem Tracks.openBlock (htracks : drawing.Tracks names opened) (pen : Pen α) (kind : BlockKind)
    (label : String) : (drawing.openBlock pen kind label).Tracks names (kind :: opened) := by
  refine ⟨htracks.actors, congrArg (kind :: ·) htracks.blocks, ?_⟩
  exact congrArg (· + 1) htracks.scopes

theorem Tracks.divideBlock (htracks : drawing.Tracks names opened) (pen : Pen α)
    (kind : SectionKind) (label : String) :
    Follows names (drawing.divideBlock pen kind label)
      ((BlockMarker.divider kind).nest opened) := by
  obtain rfl := htracks.blocks
  unfold Drawing.divideBlock BlockMarker.nest
  have hblocks : (drawing.advance (labelledGap pen.settings)).openBlocks = drawing.openBlocks := rfl
  simp only [hblocks]
  cases hopen : drawing.openBlocks with
  | nil => rfl
  | cons inner outer =>
      simp only [List.map_cons, List.head?_cons, Option.some.injEq]
      split
      · rw [hopen] at htracks
        exact ⟨htracks.actors, rfl, (Bounds.length_addSection _).trans htracks.scopes⟩
      · rfl

theorem Tracks.closeBlock (htracks : drawing.Tracks names opened) (pen : Pen α)
    (kind : BlockKind) :
    Follows names (drawing.closeBlock pen kind) ((BlockMarker.closing kind).nest opened) := by
  obtain ⟨hactors, rfl, hscopes⟩ := htracks
  unfold Drawing.closeBlock BlockMarker.nest
  cases hopen : drawing.openBlocks with
  | nil => rfl
  | cons inner outer =>
      rw [hopen, List.map_cons, List.length_cons] at hscopes
      obtain ⟨scope, scopes, hscope⟩ := List.exists_cons_of_length_eq_add_one hscopes
      obtain ⟨closed, rest, hclose, hlength⟩ := Bounds.closeScope?_of_scopes hscope
      have hrest : ({ drawing with bounds := rest, openBlocks := outer } : Drawing α ε).Tracks
          names (outer.map OpenBlock.kind) := by
        refine ⟨hactors, rfl, hlength.trans ?_⟩
        rw [hscope, List.length_cons] at hscopes
        exact Nat.succ.inj hscopes
      simp only [hclose, List.map_cons]
      split
      · refine Tracks.advance ?_ _
        split
        · exact (hrest.insert _).congr rfl rfl rfl
        · exact hrest.congr rfl rfl rfl
      · rfl

theorem Tracks.draw (htracks : drawing.Tracks names opened) (pen : Pen α) {event : Event}
    (hnames : ∀ name ∈ event.actors, name ∈ names) :
    Follows names (drawing.draw pen event) (event.nest opened) := by
  cases event with
  | message message =>
      obtain ⟨later, hdraw, hlater⟩ := htracks.drawMessage pen
        (hnames message.source (by simp [Event.actors]))
        (hnames message.target (by simp [Event.actors]))
      rw [Drawing.draw, hdraw]
      exact hlater
  | note note =>
      obtain ⟨later, hdraw, hlater⟩ := htracks.drawNote pen
        (hnames note.first (by simp [Event.actors])) (hnames note.second (by simp [Event.actors]))
      rw [Drawing.draw, hdraw]
      exact hlater
  | activation edge actor =>
      cases edge with
      | start =>
          obtain ⟨later, hdraw, hlater⟩ := htracks.startActivation pen
            (hnames actor (by simp [Event.actors]))
          rw [Drawing.draw, hdraw]
          exact hlater
      | stop => exact htracks.endActivation actor
  | block marker label =>
      cases marker with
      | opening kind => exact htracks.openBlock pen kind (label.getD "")
      | divider kind => exact htracks.divideBlock pen kind (label.getD "")
      | closing kind => exact htracks.closeBlock pen kind

theorem Tracks.drawAll (htracks : drawing.Tracks names opened) (pen : Pen α)
    {events : List Event} (hnames : ∀ event ∈ events, ∀ name ∈ event.actors, name ∈ names) :
    Follows names (events.foldlM (Drawing.draw pen) drawing)
      (events.foldlM Event.nest opened) := by
  induction events generalizing drawing opened with
  | nil => exact htracks
  | cons event rest ih =>
      have hstep := htracks.draw pen (hnames event List.mem_cons_self)
      simp only [List.foldlM_cons]
      cases hdraw : drawing.draw pen event with
      | error left =>
          cases hnest : event.nest opened with
          | error right =>
              rw [hdraw, hnest] at hstep
              exact hstep
          | ok next =>
              rw [hdraw, hnest] at hstep
              exact hstep.elim
      | ok later =>
          cases hnest : event.nest opened with
          | error right =>
              rw [hdraw, hnest] at hstep
              exact hstep.elim
          | ok next =>
              rw [hdraw, hnest] at hstep
              exact ih hstep fun event hevent => hnames event (List.mem_cons_of_mem _ hevent)

theorem Tracks.finish_eq_ok (htracks : drawing.Tracks names []) (pen : Pen α)
    (title : Option String) : ∃ layout, drawing.finish pen title = .ok layout := by
  have hclosed : drawing.openBlocks = [] := List.map_eq_nil_iff.mp htracks.blocks
  exact ⟨_, by simp only [Drawing.finish, hclosed]; rfl⟩

end Drawing

namespace Diagram

variable {diagram : Diagram} (hregistered : diagram.Registered)

include hregistered

/-- If the events name registered actors only, drawing comes to the same end as nesting. -/
theorem follows_nesting (pen : Pen α) :
    Drawing.Follows diagram.names
      (diagram.events.foldlM (Drawing.draw pen)
        (Drawing.drawActors pen diagram.actors : Drawing α ε)) diagram.nesting :=
  (Drawing.drawActors_tracks pen diagram).drawAll pen hregistered

/-- A well-nested diagram whose events name registered actors can be laid out. -/
theorem layout_eq_ok (hnested : diagram.WellNested) (settings : Settings α)
    (measurer : Measurer α) :
    ∃ layout : Layout α ε, diagram.layout settings measurer = .ok layout := by
  have hfollows := follows_nesting (ε := ε) hregistered (Pen.ofSettings settings measurer)
  rw [show diagram.nesting = .ok [] from hnested] at hfollows
  obtain ⟨drawing, hdraw, htracks⟩ := hfollows.eq_ok
  obtain ⟨layout, hfinish⟩ := htracks.finish_eq_ok (Pen.ofSettings settings measurer) diagram.title
  exact ⟨layout, Except.bind_eq_ok.mpr ⟨drawing, hdraw, hfinish⟩⟩

end Diagram

/-- What is read has the one type that can be laid out, nests, and names registered actors only. -/
theorem Engine.parse_sound {engine : Engine} {text : String} {parsed : ParsedDiagram}
    (hparse : engine.parse text = .ok parsed) :
    parsed.metadata.diagramType = sequenceType ∧ parsed.chart.diagram.Registered ∧
      parsed.chart.diagram.WellNested := by
  obtain ⟨source, settings, _, _, hread, hmetadata⟩ := parseInto_eq_ok (parse_eq_ok hparse)
  refine ⟨by rw [hmetadata]; rfl, ?_⟩
  exact Chart.wellNested_of_readCode (startChart_events settings source.title) hread

theorem ParsedDiagram.layout_eq_ok {engine : Engine} {text : String} {parsed : ParsedDiagram}
    (hparse : engine.parse text = .ok parsed) (measurer : Measurer Float) :
    ∃ rendered, parsed.layout measurer = .ok rendered := by
  obtain ⟨htype, hregistered, hnested⟩ := Engine.parse_sound hparse
  obtain ⟨layout, hlayout⟩ : ∃ layout : Layout Float Float,
      parsed.chart.diagram.layout parsed.metadata.settings measurer = .ok layout :=
    Diagram.layout_eq_ok hregistered hnested parsed.metadata.settings measurer
  refine ⟨{ metadata := parsed.metadata, layout }, ?_⟩
  unfold ParsedDiagram.layout
  rw [hlayout, if_neg (not_not_intro htype)]
  rfl

/-- **Rendering fails at most in reading.** Whatever the base settings, the measurer and the text, a
diagram that could be read can be laid out, and a rendering that fails has failed in reading. -/
theorem Renderer.fails_only_in_reading (renderer : Renderer) (text : String) :
    (∀ parsed, renderer.engine.parse text = .ok parsed →
      ∃ rendered, parsed.layout renderer.measurer = .ok rendered) ∧
      ∀ error, renderer.render text = .error error →
        ∃ cause, error = .parse cause ∧ renderer.engine.parse text = .error cause := by
  refine ⟨fun parsed hparse => ParsedDiagram.layout_eq_ok hparse renderer.measurer, ?_⟩
  intro error hrender
  unfold Renderer.render at hrender
  split at hrender
  · rename_i cause hcause
    exact ⟨cause, (Except.error.inj hrender).symm, hcause⟩
  · rename_i parsed hparse
    obtain ⟨rendered, hlayout⟩ := ParsedDiagram.layout_eq_ok hparse renderer.measurer
    rw [hlayout] at hrender
    exact nomatch hrender

/-- A diagram with a block and an activation can be read, and one with an open block cannot. -/
theorem Renderer.standard_fails_only_in_reading :
    (∃ parsed, Engine.standard.parse "sequenceDiagram\nloop again\nA->>+B: hi\nend" = .ok parsed ∧
      ∃ rendered, parsed.layout Grid.standard.measurer = .ok rendered) ∧
      ∃ error, Renderer.standard.render "sequenceDiagram\nloop again" = .error error ∧
        ∃ cause, error = .parse cause := by
  constructor
  · have hok : (Engine.standard.parse "sequenceDiagram\nloop again\nA->>+B: hi\nend").isOk := by
      decide +kernel
    cases hparse : Engine.standard.parse "sequenceDiagram\nloop again\nA->>+B: hi\nend" with
    | error cause =>
        rw [hparse] at hok
        exact nomatch hok
    | ok parsed =>
        exact ⟨parsed, rfl, (Renderer.fails_only_in_reading .standard _).1 parsed hparse⟩
  · have hfails : (Renderer.standard.render "sequenceDiagram\nloop again").isOk = false := by
      decide +kernel
    cases hrender : Renderer.standard.render "sequenceDiagram\nloop again" with
    | error error =>
        obtain ⟨cause, hcause, _⟩ := (Renderer.fails_only_in_reading .standard _).2 error hrender
        exact ⟨error, rfl, cause, hcause⟩
    | ok rendered =>
        rw [hrender] at hfails
        exact nomatch hfails

end SequenceChart
