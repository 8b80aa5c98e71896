import Mathlib.Tactic.Ring
import SequenceChart.Proofs.Heights
import SequenceChart.Proofs.Rows
import SequenceChart.Proofs.Runs

/-!
# Notes across actors

A note across two actors is placed by their left ends, and one across a single actor begins where
the actor does; how wide it is follows from the settings, and not from the widths of the actors. So
a note covers the line of an actor that is not much wider than the settings ask for. Of two actors
it always covers the line of the one on the left, since the other one stands to the right of it. But
the line of the one on the right, or of a single actor, lies outside if that actor is too wide.
-/

namespace SequenceChart

/-- The line of the actor lies between the two ends of the note. -/
def PlacedNote.Covers (note : PlacedNote ℚ) (actor : PlacedActor ℚ) : Prop :=
  note.x ≤ actor.center ∧ actor.center ≤ note.x + note.width

instance (note : PlacedNote ℚ) (actor : PlacedActor ℚ) : Decidable (note.Covers actor) :=
  inferInstanceAs (Decidable (_ ∧ _))

/-- A note across actors covers the line of one that is not wider. -/
def SequenceSettings.coveredWidth (settings : SequenceSettings ℚ) (note : PlacedNote ℚ) : ℚ :=
  if note.first = note.second then 2 * settings.width else settings.width + settings.actorMargin

theorem PlacedActor.center_eq (actor : PlacedActor ℚ) :
    actor.center = actor.x + actor.width / 2 := by
  change actor.x + actor.width / (2.0 : ℚ) = actor.x + actor.width / 2
  norm_num

namespace Drawing

variable {settings : SequenceSettings ℚ} {left right actor : PlacedActor ℚ} {placed : PlacedNote ℚ}

theorem noteSpan_comm (settings : SequenceSettings ℚ) (hname : left.name ≠ right.name) :
    noteSpan settings .across right left = noteSpan settings .across left right := by
  have hdistance : Scale.magnitude (right.x - left.x) = Scale.magnitude (left.x - right.x) :=
    abs_sub_comm right.x left.x
  unfold noteSpan
  dsimp only
  rw [if_neg hname, if_neg hname.symm, hdistance, add_comm right.x]

/-- The span goes from the left actor to the right one. Half of the margin is added on both sides,
counted from where the lines are of actors that are as wide as the settings ask for. -/
theorem noteSpan_across (settings : SequenceSettings ℚ) (hname : left.name ≠ right.name)
    (horder : left.x ≤ right.x) :
    noteSpan settings .across left right =
      (left.x + (settings.width - settings.actorMargin) / 2,
        right.x - left.x + settings.actorMargin) := by
  have hdistance : Scale.magnitude (left.x - right.x) = right.x - left.x :=
    (abs_sub_comm left.x right.x).trans (abs_of_nonneg (sub_nonneg.mpr horder))
  unfold noteSpan
  dsimp only
  rw [if_neg hname, hdistance]
  refine Prod.ext ?_ rfl
  have hhalf : (2.0 : ℚ) = 2 := by norm_num
  rw [hhalf]
  ring

/-- A note across a single actor begins where the actor does. -/
theorem covers_alone (hspan : (placed.x, placed.width) = noteSpan settings .across actor actor)
    (hwidth : 0 ≤ actor.width) :
    placed.x ≤ actor.center ∧ (placed.Covers actor ↔ actor.width ≤ 2 * settings.width) := by
  rw [noteSpan, if_pos rfl] at hspan
  obtain ⟨hx, hnoteWidth⟩ := Prod.mk.inj hspan
  have hleft : placed.x ≤ actor.center := by
    rw [actor.center_eq, hx]
    linarith
  refine ⟨hleft, ?_⟩
  rw [PlacedNote.Covers, and_iff_right hleft, actor.center_eq, hx, hnoteWidth]
  constructor <;> intro <;> linarith

section Row

variable {pen : Pen ℚ} {y x : ℚ} {actors : List Actor} {first second : String}

/-- Of two actors in a row, a note across them covers the line of the one on the left. -/
theorem covers_pair (hwidth : 0 ≤ pen.settings.width) (hmargin : 0 ≤ pen.settings.actorMargin)
    (hleft : (placeActors pen y x actors).find? (·.name = first) = some left)
    (hright : (placeActors pen y x actors).find? (·.name = second) = some right)
    (hbefore : (actors.map Actor.name).idxOf first < (actors.map Actor.name).idxOf second)
    (hspan : (placed.x, placed.width) = noteSpan pen.settings .across left right) :
    placed.Covers left ∧ placed.x ≤ right.center ∧
      (placed.Covers right ↔ right.width ≤ pen.settings.width + pen.settings.actorMargin) := by
  have hname : left.name ≠ right.name := by
    rw [name_of_find? hleft, name_of_find? hright]
    rintro rfl
    exact Nat.lt_irrefl _ hbefore
  rw [← findIdx_placeActors pen y x, ← findIdx_placeActors pen y x] at hbefore
  have hapart := (pairwise_placeActors hwidth hmargin actors).of_find? hleft hright hbefore
  have hleftWidth := width_le_of_mem_placeActors (List.mem_of_find?_eq_some hleft)
  have hrightWidth := width_le_of_mem_placeActors (List.mem_of_find?_eq_some hright)
  rw [noteSpan_across pen.settings hname (by linarith)] at hspan
  obtain ⟨hx, hnoteWidth⟩ := Prod.mk.inj hspan
  have habove : placed.x ≤ right.center := by
    rw [right.center_eq, hx]
    linarith
  refine ⟨?_, habove, ?_⟩
  · rw [PlacedNote.Covers, left.center_eq, hx, hnoteWidth]
    constructor <;> linarith
  · rw [PlacedNote.Covers, and_iff_right habove, right.center_eq, hx, hnoteWidth]
    constructor <;> intro <;> linarith

theorem idxOf_of_find? (hleft : (placeActors pen y x actors).find? (·.name = first) = some left)
    (hname : first ≠ second) :
    (actors.map Actor.name).idxOf first < (actors.map Actor.name).idxOf second ∨
      (actors.map Actor.name).idxOf second < (actors.map Actor.name).idxOf first := by
  have hmem : first ∈ actors.map Actor.name := by
    rw [← placeActors_names pen y x actors, ← name_of_find? hleft]
    exact List.mem_map_of_mem (List.mem_of_find?_eq_some hleft)
  exact Nat.lt_or_gt_of_ne (mt (List.idxOf_inj hmem).mp hname)

end Row

end Drawing

section Layout

variable {diagram : Diagram} {settings : Settings ℚ} {measurer : Measurer ℚ}
  {layout : Layout ℚ ExactEdge}

/-- The actors of a layout are a row. -/
theorem Diagram.layout_actors (hlayout : diagram.layout settings measurer = .ok layout) :
    layout.actors =
      Drawing.placeActors (Pen.ofSettings settings measurer) 0.0 0.0 diagram.actors := by
  obtain ⟨last, hlast, hfinish⟩ := Diagram.exists_drawing hlayout
  rw [(Drawing.finish_keeps hfinish).1]
  exact Pen.actors_drawAfter hlast

/-- Each note of a layout takes the span that its placement gives it. -/
theorem Diagram.exists_noteSpan (hlayout : diagram.layout settings measurer = .ok layout)
    {placed : PlacedNote ℚ} (hmem : placed ∈ layout.notes) :
    ∃ first second, layout.actors.find? (·.name = placed.first) = some first ∧
      layout.actors.find? (·.name = placed.second) = some second ∧
      (placed.x, placed.width) =
        Drawing.noteSpan settings.sequence placed.placement first second := by
  obtain ⟨index, hindex, rfl⟩ := List.mem_iff_getElem.mp hmem
  obtain ⟨last, hlast, hfinish⟩ := Diagram.exists_drawing hlayout
  obtain ⟨-, -, hnotes, -⟩ := Drawing.finish_keeps hfinish
  have hcount := hindex
  rw [hnotes, (Pen.shows_drawAfter hlast).length_notes] at hcount
  obtain ⟨before, event, after, hevents, hnote, hbefore⟩ := exists_of_lt_countP hcount
  obtain ⟨note, hnote⟩ := Option.isSome_iff_exists.mp hnote
  obtain ⟨drawing, later, hdrawing, hdraw, -, hshown⟩ := Diagram.exists_draw hlayout hevents
  cases event with
  | message | activation | block => cases hnote
  | note written =>
      obtain ⟨placed, first, second, hadded, hfirst, hsecond, hspan⟩ := Drawing.drawNote_span hdraw
      have hplaced := (Pen.shows_drawAfter hdrawing).getElem?_note hadded hshown
      rw [hbefore, List.getElem?_eq_getElem hindex] at hplaced
      obtain rfl := Option.some.inj hplaced
      rw [hshown.actors, (Drawing.extends_draw hdraw).actors]
      exact ⟨first, second, Drawing.actor_eq_ok_iff.mp hfirst, Drawing.actor_eq_ok_iff.mp hsecond,
        hspan⟩

/-- **Notes across actors.** A note across actors does not begin to the right of their lines. It
covers the line of an actor if, and only if, that actor is registered before the other one, or is
not too wide: not wider than twice the width that the settings ask for if the note is across a
single actor, and not wider than that width and the margin between actors otherwise. -/
theorem Diagram.notes_cover (hwidth : 0 ≤ settings.sequence.width)
    (hmargin : 0 ≤ settings.sequence.actorMargin)
    (hlayout : diagram.layout settings measurer = .ok layout) :
    ∀ placed ∈ layout.notes, placed.placement = .across →
      ∃ first second, layout.actors.find? (·.name = placed.first) = some first ∧
        layout.actors.find? (·.name = placed.second) = some second ∧
        placed.x ≤ first.center ∧ placed.x ≤ second.center ∧
        (placed.Covers first ↔ first.width ≤ settings.sequence.coveredWidth placed ∨
          diagram.names.idxOf placed.first < diagram.names.idxOf placed.second) ∧
        (placed.Covers second ↔ second.width ≤ settings.sequence.coveredWidth placed ∨
          diagram.names.idxOf placed.second < diagram.names.idxOf placed.first) := by
  intro placed hmem hacross
  obtain ⟨first, second, hfirst, hsecond, hspan⟩ := Diagram.exists_noteSpan hlayout hmem
  refine ⟨first, second, hfirst, hsecond, ?_⟩
  rw [hacross] at hspan
  rw [Diagram.layout_actors hlayout] at hfirst hsecond
  by_cases hname : placed.first = placed.second
  · obtain rfl : first = second := by
      rw [hname] at hfirst
      exact Option.some.inj (hfirst.symm.trans hsecond)
    have hactor := Drawing.width_le_of_mem_placeActors (List.mem_of_find?_eq_some hfirst)
    obtain ⟨hleft, hcovers⟩ := Drawing.covers_alone hspan (hwidth.trans hactor)
    rw [SequenceSettings.coveredWidth, if_pos hname, hname, or_iff_left (Nat.lt_irrefl _)]
    exact ⟨hleft, hleft, hcovers, hcovers⟩
  · rw [SequenceSettings.coveredWidth, if_neg hname]
    -- The span is the same both ways, so the actor that is registered earlier may be named second.
    rcases Drawing.idxOf_of_find? hfirst hname with hbefore | hbefore
    · obtain ⟨hcovers, hleft, hiff⟩ :=
        Drawing.covers_pair hwidth hmargin hfirst hsecond hbefore hspan
      exact ⟨hcovers.1, hleft, iff_of_true hcovers (.inr hbefore),
        hiff.trans (or_iff_left (Nat.lt_asymm hbefore)).symm⟩
    · have hnames : second.name ≠ first.name := by
        rw [Drawing.name_of_find? hfirst, Drawing.name_of_find? hsecond]
        exact Ne.symm hname
      rw [Drawing.noteSpan_comm settings.sequence hnames] at hspan
      obtain ⟨hcovers, hleft, hiff⟩ :=
        Drawing.covers_pair hwidth hmargin hsecond hfirst hbefore hspan
      exact ⟨hleft, hcovers.1, hiff.trans (or_iff_left (Nat.lt_asymm hbefore)).symm,
        iff_of_true hcovers (.inr hbefore)⟩

end Layout

/-- A note across two actors, of which the one on the right is wide. -/
def wideRight : Chart :=
  Chart.empty.operateAll
    [.edit (.addActor "A" none), .edit (.addActor "B" (some "a service with a lengthy name")),
      .edit (.addNote .across "A" (some "B") "both")]

theorem built_wideRight : wideRight.Built :=
  Chart.Built.operateAll (.new .standard) _

theorem wideRight_covers : ∃ layout : Layout ℚ ExactEdge,
    wideRight.diagram.layout .exact Grid.standard.measurer = .ok layout ∧
      ∃ placed ∈ layout.notes, ∃ first second,
        layout.actors.find? (·.name = "A") = some first ∧
        layout.actors.find? (·.name = "B") = some second ∧
        placed.Covers first ∧ (placed.Covers second ↔ second.width ≤ 200) := by
  have hnotes : (wideRight.diagram.layout .exact Grid.standard.measurer :
      Except LayoutError (Layout ℚ ExactEdge)).toOption.any (·.notes.any fun placed =>
        placed.placement = .across ∧ placed.first = "A" ∧ placed.second = "B") = true := by
    decide +kernel
  obtain ⟨layout, hlayout, hnotes⟩ := Except.exists_ok_of_any hnotes
  obtain ⟨placed, hmem, hplaced⟩ := List.any_eq_true.mp hnotes
  obtain ⟨hacross, hfirstName, hsecondName⟩ := of_decide_eq_true hplaced
  obtain ⟨first, second, hfirst, hsecond, -, -, hcovers, hiff⟩ :=
    Diagram.notes_cover (Settings.nonNegative_exact .width)
      (Settings.nonNegative_exact .actorMargin) hlayout placed hmem hacross
  have hbefore : wideRight.diagram.names.idxOf "A" < wideRight.diagram.names.idxOf "B" := by
    decide +kernel
  have hwidth : Settings.exact.sequence.coveredWidth placed = 200 := by
    rw [SequenceSettings.coveredWidth, hfirstName, hsecondName]
    decide +kernel
  rw [hfirstName] at hfirst
  rw [hsecondName] at hsecond
  rw [hfirstName, hsecondName] at hcovers hiff
  rw [or_iff_left (Nat.lt_asymm hbefore), hwidth] at hiff
  exact ⟨layout, hlayout, placed, hmem, first, second, hfirst, hsecond,
    hcovers.mpr (.inr hbefore), hiff⟩

/-- A note across a single actor that is wide. -/
def wideAlone : Chart :=
  Chart.empty.operateAll
    [.edit (.addActor "A" (some "a service with a name that takes a line")),
      .edit (.addNote .across "A" none "here")]

theorem built_wideAlone : wideAlone.Built :=
  Chart.Built.operateAll (.new .standard) _

/-- A note across actors leaves out the line of one of them. -/
def Layout.LeavesOut (layout : Layout ℚ ExactEdge) : Prop :=
  ∃ note ∈ layout.notes, note.placement = .across ∧
    ∃ actor ∈ layout.actors, (actor.name = note.first ∨ actor.name = note.second) ∧
      ¬note.Covers actor

instance (layout : Layout ℚ ExactEdge) : Decidable layout.LeavesOut :=
  inferInstanceAs (Decidable (∃ note ∈ layout.notes, _))

/-- A note does not cover the line of a single actor that is too wide, nor that of the one on the
right. -/
theorem notes_leave_out :
    Settings.exact.sequence.NonNegative ∧ (Grid.standard : Grid ℚ).measurer.NonNegative ∧
      wideAlone.Built ∧ (∃ layout : Layout ℚ ExactEdge,
        wideAlone.diagram.layout .exact Grid.standard.measurer = .ok layout ∧ layout.LeavesOut) ∧
      wideRight.Built ∧ ∃ layout : Layout ℚ ExactEdge,
        wideRight.diagram.layout .exact Grid.standard.measurer = .ok layout ∧ layout.LeavesOut := by
  have halone : (wideAlone.diagram.layout .exact Grid.standard.measurer :
      Except LayoutError (Layout ℚ ExactEdge)).toOption.any (·.LeavesOut) = true := by
    decide +kernel
  have hright : (wideRight.diagram.layout .exact Grid.standard.measurer :
      Except LayoutError (Layout ℚ ExactEdge)).toOption.any (·.LeavesOut) = true := by
    decide +kernel
  obtain ⟨layout, hlayout, houtside⟩ := Except.exists_ok_of_any halone
  obtain ⟨other, hother, hothers⟩ := Except.exists_ok_of_any hright
  exact ⟨Settings.nonNegative_exact, Grid.nonNegative_standard, built_wideAlone,
    ⟨layout, hlayout, of_decide_eq_true houtside⟩, built_wideRight, other, hother,
    of_decide_eq_true hothers⟩

end SequenceChart
