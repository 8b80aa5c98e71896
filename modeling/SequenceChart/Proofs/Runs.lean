import Mathlib.Data.List.Induction
import SequenceChart.Proofs.Correspondence

/-!
# Runs of a drawing

A drawing is reached event by event, and so each beginning of the events reaches one. What it shows
stays: later events only add to it, and so does the end. There is one message, note or block for
each event that tells of one, so that what belongs to an event is found by counting the events
before it.
-/

namespace SequenceChart

def Event.isMessage (event : Event) : Bool :=
  event.message?.isSome

def Event.isNote (event : Event) : Bool :=
  event.note?.isSome

/-- The event closes a block. -/
def Event.isClosing (event : Event) : Bool :=
  event.closedKind?.isSome

/-- What is added to a list stays where it is, whatever comes after it. -/
theorem getElem?_of_append_isPrefix {β : Type} {items shown : List β} {item : β}
    (hshown : shown ++ [item] <+: items) : items[shown.length]? = some item := by
  obtain ⟨more, rfl⟩ := hshown
  rw [List.append_assoc, List.getElem?_append_right (Nat.le_refl _), Nat.sub_self]
  rfl

/-- The event that has a given number of others of its sort before it. -/
theorem exists_of_lt_countP {β : Type} {counts : β → Bool} {items : List β} {index : ℕ}
    (hindex : index < items.countP counts) :
    ∃ before item after, items = before ++ item :: after ∧ counts item = true ∧
      before.countP counts = index := by
  induction items using List.reverseRecOn with
  | nil => cases hindex
  | append_singleton items item ih =>
      by_cases hearlier : index < items.countP counts
      · obtain ⟨before, found, after, rfl, hfound, hcount⟩ := ih hearlier
        exact ⟨before, found, after ++ [item], List.append_assoc .., hfound, hcount⟩
      · rw [List.countP_append, List.countP_singleton] at hindex
        by_cases hitem : counts item = true
        · rw [if_pos hitem] at hindex
          exact ⟨items, item, [], rfl, hitem, by omega⟩
        · rw [if_neg hitem] at hindex
          exact absurd hindex hearlier

variable {α ε : Type}

theorem Leaves.kinds {events : List Event} {blocks : List BlockOutline} {opened : List OpenBlock}
    (hleaves : Leaves events blocks opened) :
    blocks.map BlockOutline.kind = events.filterMap Event.closedKind? := by
  induction hleaves with
  | outside hnests => exact hnests.kinds
  | inside _ hnests ih =>
      rw [List.map_append, ih, hnests.kinds, List.filterMap_append, List.filterMap_cons_none rfl]

namespace Drawing

section Counts

variable {actors : List Actor} {events : List Event} {drawing : Drawing α ε}

theorem Shows.length_messages (hshows : drawing.Shows actors events) :
    drawing.messages.length = events.countP Event.isMessage := by
  have hlength := congrArg List.length hshows.messages
  rwa [List.length_map, List.length_map, List.length_filterMap_eq_countP] at hlength

theorem Shows.length_notes (hshows : drawing.Shows actors events) :
    drawing.notes.length = events.countP Event.isNote := by
  have hlength := congrArg List.length hshows.notes
  rwa [List.length_map, List.length_map, List.length_filterMap_eq_countP] at hlength

theorem Shows.length_blocks (hshows : drawing.Shows actors events) :
    drawing.blocks.length = events.countP Event.isClosing := by
  have hlength := congrArg List.length hshows.blocks.kinds
  rwa [List.length_map, List.length_map, List.length_filterMap_eq_countP] at hlength

end Counts

/-- The later drawing shows all that the earlier one shows, and maybe more. -/
structure Extends (drawing later : Drawing α ε) : Prop where
  actors : later.actors = drawing.actors
  messages : drawing.messages <+: later.messages
  notes : drawing.notes <+: later.notes
  activations : drawing.activations <+: later.activations
  blocks : drawing.blocks <+: later.blocks

/-- All that the drawing shows is a part of the layout. -/
structure ShownBy (drawing : Drawing α ε) (layout : Layout α ε) : Prop where
  actors : layout.actors = drawing.actors
  messages : drawing.messages <+: layout.messages
  notes : drawing.notes <+: layout.notes
  activations : drawing.activations <+: layout.activations
  blocks : drawing.blocks <+: layout.blocks

variable {first drawing later : Drawing α ε} {layout : Layout α ε}

theorem Extends.refl (drawing : Drawing α ε) : drawing.Extends drawing :=
  ⟨rfl, List.prefix_rfl, List.prefix_rfl, List.prefix_rfl, List.prefix_rfl⟩

theorem Extends.trans (hfirst : first.Extends drawing) (hlater : drawing.Extends later) :
    first.Extends later where
  actors := hlater.actors.trans hfirst.actors
  messages := hfirst.messages.trans hlater.messages
  notes := hfirst.notes.trans hlater.notes
  activations := hfirst.activations.trans hlater.activations
  blocks := hfirst.blocks.trans hlater.blocks

theorem Extends.shownBy (hextends : drawing.Extends later) (hshown : later.ShownBy layout) :
    drawing.ShownBy layout where
  actors := hshown.actors.trans hextends.actors
  messages := hextends.messages.trans hshown.messages
  notes := hextends.notes.trans hshown.notes
  activations := hextends.activations.trans hshown.activations
  blocks := hextends.blocks.trans hshown.blocks

/-- The message that an event adds is found by counting the messages before it. -/
theorem Shows.getElem?_message {actors : List Actor} {events : List Event}
    (hshows : drawing.Shows actors events) {placed : PlacedMessage α}
    (hadded : later.messages = drawing.messages ++ [placed]) (hshown : later.ShownBy layout) :
    layout.messages[events.countP Event.isMessage]? = some placed := by
  rw [← hshows.length_messages]
  exact getElem?_of_append_isPrefix (hadded ▸ hshown.messages)

theorem Shows.getElem?_note {actors : List Actor} {events : List Event}
    (hshows : drawing.Shows actors events) {placed : PlacedNote α}
    (hadded : later.notes = drawing.notes ++ [placed]) (hshown : later.ShownBy layout) :
    layout.notes[events.countP Event.isNote]? = some placed := by
  rw [← hshows.length_notes]
  exact getElem?_of_append_isPrefix (hadded ▸ hshown.notes)

variable [Scale α] [Edge ε] [Placing α ε] {pen : Pen α}

theorem extends_draw {event : Event} (hdraw : drawing.draw pen event = .ok later) :
    drawing.Extends later := by
  have hsame := Extends.refl drawing
  cases event with
  | message message =>
      obtain ⟨source, target, text, down, box, -, -, hdown, rfl⟩ := drawMessage_eq_ok hdraw
      rcases hdown with ⟨-, rfl, -⟩ | ⟨-, rfl, -⟩ <;>
        exact { hsame with messages := List.prefix_append _ _ }
  | note note =>
      obtain ⟨span, height, maxWidth, -, rfl⟩ := drawNote_eq_ok hdraw
      exact { hsame with notes := List.prefix_append _ _ }
  | activation edge name =>
      cases edge with
      | start =>
          obtain ⟨actor, activation, -, -, -, rfl⟩ := startActivation_eq_ok hdraw
          exact { hsame with }
      | stop =>
          rw [← Except.ok.inj hdraw, endActivation]
          split
          · exact hsame
          · exact { hsame with activations := List.prefix_append _ _ }
  | block marker label =>
      cases marker with
      | opening kind =>
          rw [← Except.ok.inj hdraw]
          exact { hsame with }
      | divider kind =>
          obtain ⟨inner, outer, -, -, rfl⟩ := divideBlock_eq_ok hdraw
          exact { hsame with }
      | closing kind =>
          obtain ⟨inner, outer, scope, rest, box, bounds, -, -, -, -, rfl⟩ := closeBlock_eq_ok hdraw
          exact { hsame with blocks := List.prefix_append _ _ }

theorem extends_drawAll {events : List Event}
    (hdraw : events.foldlM (draw pen) drawing = .ok later) : drawing.Extends later :=
  drawAll_induction (motive := fun _ later => drawing.Extends later)
    (fun _ hextends hdraw => hextends.trans (extends_draw hdraw)) (List.nil_append events)
    (.refl drawing) hdraw

theorem shownBy_finish {title : Option String} (hfinish : drawing.finish pen title = .ok layout) :
    drawing.ShownBy layout := by
  obtain ⟨hactors, hmessages, hnotes, hblocks, hactivations, -⟩ := finish_keeps hfinish
  rw [stopActivations_activations] at hactivations
  exact ⟨hactors, hmessages ▸ List.prefix_rfl, hnotes ▸ List.prefix_rfl,
    hactivations ▸ List.prefix_append _ _, hblocks ▸ List.prefix_rfl⟩

end Drawing

variable [Scale α] [Edge ε] [Placing α ε]

def Pen.drawAfter (pen : Pen α) (actors : List Actor) (events : List Event) :
    Except LayoutError (Drawing α ε) :=
  events.foldlM (Drawing.draw pen) (Drawing.drawActors pen actors)

namespace Pen

variable {pen : Pen α} {actors : List Actor} {before after : List Event} {event : Event}
  {drawing later : Drawing α ε}

theorem drawAfter_append :
    pen.drawAfter actors (before ++ after) = .ok later ↔
      ∃ drawing, pen.drawAfter actors before = .ok drawing ∧
        after.foldlM (Drawing.draw pen) drawing = .ok later := by
  unfold drawAfter
  rw [List.foldlM_append, Except.bind_eq_ok]

theorem drawAfter_step (hdrawing : pen.drawAfter actors before = .ok drawing)
    (hdraw : drawing.draw pen event = .ok later) :
    pen.drawAfter actors (before ++ [event]) = .ok later := by
  refine drawAfter_append.mpr ⟨drawing, hdrawing, ?_⟩
  rw [List.foldlM_cons]
  exact Except.bind_eq_ok.mpr ⟨later, hdraw, rfl⟩

/-- The first of the remaining events is drawn next. -/
theorem exists_step (hlater : pen.drawAfter actors (before ++ event :: after) = .ok later) :
    ∃ drawing next, pen.drawAfter actors before = .ok drawing ∧
      drawing.draw pen event = .ok next ∧ pen.drawAfter actors (before ++ [event]) = .ok next ∧
      after.foldlM (Drawing.draw pen) next = .ok later := by
  obtain ⟨drawing, hdrawing, hrest⟩ := drawAfter_append.mp hlater
  rw [List.foldlM_cons] at hrest
  obtain ⟨next, hnext, hrest⟩ := Except.bind_eq_ok.mp hrest
  exact ⟨drawing, next, hdrawing, hnext, drawAfter_step hdrawing hnext, hrest⟩

/-- What every event keeps, as it is drawn, holds of the drawing after all events. -/
theorem drawAfter_induction {motive : List Event → Drawing α ε → Prop} {all : List Event}
    (hstart : motive [] (Drawing.drawActors pen actors))
    (hstep : ∀ {before event} {drawing later : Drawing α ε}, before ++ [event] <+: all →
      pen.drawAfter actors before = .ok drawing → motive before drawing →
      drawing.draw pen event = .ok later → motive (before ++ [event]) later)
    (hdraw : pen.drawAfter actors all = .ok drawing) : motive all drawing := by
  have hboth : pen.drawAfter actors all = .ok drawing ∧ motive all drawing := by
    refine Drawing.drawAll_induction
      (motive := fun events drawing => pen.drawAfter actors events = .ok drawing ∧
        motive events drawing) ?_ (List.nil_append all) ⟨rfl, hstart⟩ hdraw
    rintro before event drawing later hbefore ⟨hdrawing, hmotive⟩ hdraw
    exact ⟨drawAfter_step hdrawing hdraw, hstep hbefore hdrawing hmotive hdraw⟩
  exact hboth.2

theorem shows_drawAfter (hdrawing : pen.drawAfter actors before = .ok drawing) :
    drawing.Shows actors before :=
  (Drawing.shows_drawActors pen actors).drawAll hdrawing

theorem actors_drawAfter (hdrawing : pen.drawAfter actors before = .ok drawing) :
    drawing.actors = Drawing.placeActors pen 0.0 0.0 actors := by
  rw [(Drawing.extends_drawAll hdrawing).actors]
  obtain ⟨bounds, -, -, -, hdrawn⟩ := Drawing.drawActors_eq (ε := ε) pen actors
  rw [hdrawn]

end Pen

namespace Diagram

variable {diagram : Diagram} {settings : Settings α} {measurer : Measurer α} {layout : Layout α ε}
  {before after : List Event} {event : Event}

/-- An event of the diagram as it is drawn. -/
theorem exists_draw (hlayout : diagram.layout settings measurer = .ok layout)
    (hevents : diagram.events = before ++ event :: after) :
    ∃ drawing later : Drawing α ε,
      (Pen.ofSettings settings measurer).drawAfter diagram.actors before = .ok drawing ∧
        drawing.draw (Pen.ofSettings settings measurer) event = .ok later ∧
        (Pen.ofSettings settings measurer).drawAfter diagram.actors (before ++ [event]) =
          .ok later ∧
        later.ShownBy layout := by
  obtain ⟨last, hlast, hfinish⟩ := exists_drawing hlayout
  rw [hevents] at hlast
  obtain ⟨drawing, later, hdrawing, hdraw, hlater, hrest⟩ := Pen.exists_step hlast
  exact ⟨drawing, later, hdrawing, hdraw, hlater, (Drawing.extends_drawAll hrest).shownBy
    (Drawing.shownBy_finish hfinish)⟩

end Diagram

end SequenceChart
