import SequenceChart.Proofs.Growth
import SequenceChart.Proofs.Heights

/-!
# Strips

From top to bottom a message takes a line, and a note takes its height. Such a strip begins below
the cursor, by the margin of its kind at least, and the cursor goes down to its end. What comes
between two strips moves the cursor further down or leaves it where it is, so that strips follow
each other in the order of the events and never overlap.
-/

namespace SequenceChart

/-- What something takes of a drawing from top to bottom. -/
structure Strip where
  top : ℚ
  bottom : ℚ

def PlacedMessage.strip (message : PlacedMessage ℚ) : Strip :=
  { top := message.y, bottom := message.y }

def PlacedNote.strip (note : PlacedNote ℚ) : Strip :=
  { top := note.y, bottom := note.y + note.height }

/-- The event tells of a message or of a note. -/
def Event.takesStrip (event : Event) : Bool :=
  event.isMessage || event.isNote

/-- The strip of an event that comes after the earlier ones. -/
def Layout.strip? (layout : Layout ℚ ExactEdge) (earlier : List Event) : Event → Option Strip
  | .message _ => layout.messages[earlier.countP Event.isMessage]?.map PlacedMessage.strip
  | .note _ => layout.notes[earlier.countP Event.isNote]?.map PlacedNote.strip
  | .activation _ _ | .block _ _ => none

/-- What is kept free above the strip of the event at least. -/
def SequenceSettings.marginAbove (settings : SequenceSettings ℚ) : Event → ℚ
  | .message _ => settings.messageMargin
  | .note _ | .activation _ _ | .block _ _ => settings.boxMargin

namespace Drawing

variable {drawing later : Drawing ℚ ExactEdge} {pen : Pen ℚ}

/-- A message is drawn at the cursor, after the margin. -/
theorem drawMessage_strip {message : Message}
    (hdraw : drawing.drawMessage pen message = .ok later) :
    ∃ placed, later.messages = drawing.messages ++ [placed] ∧
      drawing.cursor + pen.settings.messageMargin ≤ placed.y ∧ placed.y = later.cursor := by
  have hheight : (0 : ℚ) ≤ selfHeight := by norm_num [selfHeight]
  obtain ⟨source, target, text, down, box, -, -, hdown, rfl⟩ := drawMessage_eq_ok hdraw
  refine ⟨messageAt message (arrowSpan source target) down.cursor text, rfl, ?_, rfl⟩
  rcases hdown with ⟨-, rfl, -⟩ | ⟨-, rfl, -⟩
  · exact le_add_of_nonneg_right hheight
  · exact le_refl _

/-- A note begins at the cursor, after the margin, and the cursor goes down by its height. -/
theorem drawNote_strip (hpen : pen.NonNegative) {note : Note}
    (hdraw : drawing.drawNote pen note = .ok later) :
    ∃ placed, later.notes = drawing.notes ++ [placed] ∧
      placed.y = drawing.cursor + pen.settings.boxMargin ∧ 0 ≤ placed.height ∧
      placed.y + placed.height = later.cursor := by
  obtain ⟨span, height, maxWidth, hheight, rfl⟩ := drawNote_eq_ok hdraw
  have hdown : 0 ≤ height := hheight ▸ noteHeight_nonneg hpen _ _ _
  exact ⟨noteAt note span (drawing.advance pen.settings.boxMargin).cursor height, rfl, rfl, hdown,
    rfl⟩

end Drawing

namespace Pen

variable {pen : Pen ℚ} {actors : List Actor} {earlier : List Event} {event : Event}
  {drawing later : Drawing ℚ ExactEdge} {layout : Layout ℚ ExactEdge}

/-- The strip of an event lies between the cursor before the event and the one after it. -/
theorem strip_of_draw (hpen : pen.NonNegative)
    (hdrawing : pen.drawAfter actors earlier = .ok drawing)
    (hdraw : drawing.draw pen event = .ok later) (hshown : later.ShownBy layout)
    (htakes : event.takesStrip = true) :
    ∃ strip, layout.strip? earlier event = some strip ∧
      drawing.cursor + pen.settings.marginAbove event ≤ strip.top ∧ strip.top ≤ strip.bottom ∧
      strip.bottom = later.cursor := by
  have hshows := shows_drawAfter hdrawing
  cases event with
  | message message =>
      obtain ⟨placed, hmessages, habove, hy⟩ := Drawing.drawMessage_strip hdraw
      have hplaced := hshows.getElem?_message hmessages hshown
      exact ⟨placed.strip, congrArg (Option.map _) hplaced, habove, le_refl _, hy⟩
  | note note =>
      obtain ⟨placed, hnotes, hy, hheight, hbottom⟩ := Drawing.drawNote_strip hpen hdraw
      have hplaced := hshows.getElem?_note hnotes hshown
      exact ⟨placed.strip, congrArg (Option.map _) hplaced, hy.ge, le_add_of_nonneg_right hheight,
        hbottom⟩
  | activation | block => cases htakes

end Pen

/-- **Strips follow each other.** Of two events that tell of messages or notes, the later one has
its strip below the strip of the earlier one, whatever comes between them. Above a message the
margin of messages is kept free, and above a note the margin of boxes. -/
theorem Diagram.strips_descend {diagram : Diagram} {settings : Settings ℚ}
    (hsettings : settings.sequence.NonNegative) {measurer : Measurer ℚ}
    (hmeasurer : measurer.NonNegative) {layout : Layout ℚ ExactEdge}
    (hlayout : diagram.layout settings measurer = .ok layout)
    {earlier between later : List Event} {upper lower : Event}
    (hevents : diagram.events = earlier ++ upper :: (between ++ lower :: later))
    (hupper : upper.takesStrip = true) (hlower : lower.takesStrip = true) :
    ∃ first second, layout.strip? earlier upper = some first ∧
      layout.strip? (earlier ++ upper :: between) lower = some second ∧
      first.top ≤ first.bottom ∧
      first.bottom + settings.sequence.marginAbove lower ≤ second.top := by
  have hpen : (Pen.ofSettings settings measurer).NonNegative := ⟨hsettings, hmeasurer⟩
  have hregrouped : diagram.events = (earlier ++ upper :: between) ++ lower :: later := by
    rw [hevents, List.append_assoc, List.cons_append]
  obtain ⟨start, reached, hstart, hdrawUpper, hreached, hshownUpper⟩ :=
    Diagram.exists_draw hlayout hevents
  obtain ⟨below, _, hbelow, hdrawLower, -, hshownLower⟩ := Diagram.exists_draw hlayout hregrouped
  obtain ⟨first, hfirst, -, hupright, hend⟩ :=
    Pen.strip_of_draw hpen hstart hdrawUpper hshownUpper hupper
  obtain ⟨second, hsecond, hmargin, -, -⟩ :=
    Pen.strip_of_draw hpen hbelow hdrawLower hshownLower hlower
  have hcursor : reached.cursor ≤ below.cursor :=
    Pen.cursor_le_drawAfter hpen hreached (List.append_cons .. ▸ hbelow)
  refine ⟨first, second, hfirst, hsecond, hupright, ?_⟩
  calc first.bottom + settings.sequence.marginAbove lower
      = reached.cursor + settings.sequence.marginAbove lower := by rw [hend]
    _ ≤ below.cursor + settings.sequence.marginAbove lower := add_le_add_left hcursor _
    _ ≤ second.top := hmargin

/-- A message, and a note in a block of its own inside an activation. -/
def remarked : Chart :=
  Chart.empty.operateAll
    [.edit (.addMessage "A" "B" .solid "go"), .edit (.activate "B"),
      .edit (.addBlockMarker (.opening .opt) (some "late")),
      .edit (.addNote .rightOf "B" none "soon"), .edit (.addBlockMarker (.closing .opt) none),
      .edit (.deactivate "B")]

theorem built_remarked : remarked.Built :=
  Chart.Built.operateAll (.new .standard) _

theorem remarked_strips : ∃ layout : Layout ℚ ExactEdge,
    remarked.diagram.layout .exact Grid.standard.measurer = .ok layout ∧
      ∃ message note, layout.messages[0]? = some message ∧ layout.notes[0]? = some note ∧
        message.y + 10 ≤ note.y := by
  obtain ⟨layout, hlayout⟩ : ∃ layout : Layout ℚ ExactEdge,
      remarked.diagram.layout .exact Grid.standard.measurer = .ok layout :=
    Diagram.layout_eq_ok built_remarked.balanced.registered rfl .exact Grid.standard.measurer
  have hevents : remarked.diagram.events =
      [] ++ .message ⟨.solid, "A", "B", "go", false, none⟩ ::
        ([.activation .start "B", .block (.opening .opt) (some "late")] ++
          .note ⟨.rightOf, "B", "B", "soon", false⟩ ::
            [.block (.closing .opt) none, .activation .stop "B"]) := by decide +kernel
  obtain ⟨first, second, hfirst, hsecond, -, habove⟩ := Diagram.strips_descend
    Settings.nonNegative_exact Grid.nonNegative_standard hlayout hevents rfl rfl
  obtain ⟨message, hmessage, rfl⟩ := Option.map_eq_some_iff.mp hfirst
  obtain ⟨note, hnote, rfl⟩ := Option.map_eq_some_iff.mp hsecond
  exact ⟨layout, hlayout, message, note, hmessage, hnote, habove⟩

end SequenceChart
