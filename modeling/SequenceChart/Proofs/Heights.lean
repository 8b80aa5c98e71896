import SequenceChart.Proofs.Activations
import SequenceChart.Proofs.Enclosure
import SequenceChart.Proofs.Strokes

/-!
# Heights of activations

An activation begins a little below the cursor. When it ends, it is stretched if it is short, so
that every activation that ends has its least height. An activation that is left open is stopped
where it is: it may be short, and if nothing follows its start, it stops above it.
-/

namespace SequenceChart

def Event.isEdge (edge : ActivationEdge) : Event → Bool
  | activation other _ => other = edge
  | _ => false

theorem Event.isEdge_eq_false {event : Event} (hplain : ∀ edge name, event ≠ .activation edge name)
    (edge : ActivationEdge) : event.isEdge edge = false := by
  cases event with
  | activation other name => exact absurd rfl (hplain other name)
  | message | note | block => rfl

theorem edgeCount_append_plain {event : Event} (hplain : ∀ edge name, event ≠ .activation edge name)
    (edge : ActivationEdge) (name : String) (events : List Event) :
    edgeCount edge name (events ++ [event]) = edgeCount edge name events := by
  rw [edgeCount_append, edgeCount, edgeCount, List.count_singleton,
    if_neg (by simpa using hplain edge name), Nat.add_zero]

theorem Bounds.cursor_of_closeScope? {bounds rest : ExactBounds} {closed : ExactScope}
    (hclose : bounds.closeScope? = some (closed, rest)) : rest.cursor = bounds.cursor := by
  obtain ⟨inner, outer, -, -, rfl⟩ := closeScope?_eq_some hclose
  unfold includeInner
  split <;> rfl

namespace Drawing

variable {drawing later : Drawing ℚ ExactEdge} {pen : Pen ℚ} {events : List Event}

theorem cursor_closeBlock {kind : BlockKind} (hdraw : drawing.closeBlock pen kind = .ok later) :
    later.cursor = drawing.cursor + pen.settings.boxMargin := by
  obtain ⟨inner, outer, scope, rest, box, bounds, -, -, hclose, hbounds, rfl⟩ :=
    closeBlock_eq_ok hdraw
  have hclosed : rest.cursor = drawing.cursor := Bounds.cursor_of_closeScope? hclose
  rcases hbounds with ⟨-, -, rfl⟩ | ⟨-, -, rfl⟩ <;>
    exact congrArg (· + pen.settings.boxMargin) hclosed

/-- Except for activations, the cursor does not go up. -/
theorem draw_plain (hpen : pen.NonNegative) {event : Event}
    (hplain : ∀ edge name, event ≠ .activation edge name)
    (hdraw : drawing.draw pen event = .ok later) : drawing.cursor ≤ later.cursor := by
  have hboxMargin : 0 ≤ pen.settings.boxMargin := hpen.settings .boxMargin
  have hgap := labelledGap_nonneg hpen
  cases event with
  | activation edge name => exact absurd rfl (hplain edge name)
  | message message =>
      obtain ⟨bounds, placed, startX, stopX, hgrows, -, -, rfl⟩ := drawMessage_inserts hpen hdraw
      exact hgrows.cursor
  | note note =>
      obtain ⟨span, height, maxWidth, hheight, rfl⟩ := drawNote_eq_ok hdraw
      have hdown : 0 ≤ height := hheight ▸ noteHeight_nonneg hpen _ _ _
      exact (le_add_of_nonneg_right hboxMargin).trans (le_add_of_nonneg_right hdown)
  | block marker label =>
      cases marker with
      | opening kind =>
          rw [← Except.ok.inj hdraw]
          exact (le_add_of_nonneg_right hboxMargin).trans
            (le_add_of_nonneg_right (openingGap_nonneg hpen kind))
      | divider kind =>
          obtain ⟨inner, outer, -, -, rfl⟩ := divideBlock_eq_ok hdraw
          exact (le_add_of_nonneg_right hgap).trans
            ((Bounds.grows_addSection _).cursor.trans (le_add_of_nonneg_right hboxMargin))
      | closing kind =>
          rw [cursor_closeBlock hdraw]
          exact le_add_of_nonneg_right hboxMargin

/-- The activations that are open or have ended are those that the events tell. -/
structure Counts (events : List Event) (drawing : Drawing ℚ ExactEdge) : Prop where
  opened : ∀ name, drawing.openActivations.countP (·.actor = name) +
    edgeCount .stop name events = edgeCount .start name events
  started : drawing.openActivations.length + drawing.activations.length =
    events.countP (Event.isEdge .start)
  ended : drawing.activations.length = events.countP (Event.isEdge .stop)

theorem Counts.plain (hcounts : drawing.Counts events) {event : Event}
    (hplain : ∀ edge name, event ≠ .activation edge name)
    (hopen : later.openActivations = drawing.openActivations)
    (hactivations : later.activations = drawing.activations) :
    later.Counts (events ++ [event]) where
  opened name := by
    rw [hopen, edgeCount_append_plain hplain, edgeCount_append_plain hplain]
    exact hcounts.opened name
  started := by
    rw [hopen, hactivations, List.countP_append, List.countP_singleton,
      Event.isEdge_eq_false hplain]
    exact hcounts.started
  ended := by
    rw [hactivations, List.countP_append, List.countP_singleton, Event.isEdge_eq_false hplain]
    exact hcounts.ended

theorem Counts.startActivation (hcounts : drawing.Counts events) {name : String}
    (hdraw : drawing.startActivation pen name = .ok later) :
    later.Counts (events ++ [.activation .start name]) := by
  have hedge : ActivationEdge.start ≠ .stop := nofun
  obtain ⟨actor, activation, -, hactor, -, rfl⟩ := startActivation_eq_ok hdraw
  refine ⟨fun other => ?_, ?_, ?_⟩
  · rw [edgeCount_append_same, edgeCount_append_other hedge, List.countP_cons, hactor,
      ← hcounts.opened other]
    simp only [decide_eq_true_eq]
    omega
  · have hstarted := hcounts.started
    rw [List.countP_append, List.length_cons]
    change drawing.openActivations.length + 1 + drawing.activations.length = _ + 1
    omega
  · rw [List.countP_append]
    exact hcounts.ended

/-- An activation that ends is open. -/
theorem Counts.exists_open (hcounts : drawing.Counts events) {name : String}
    (hfollow : edgeCount .stop name (events ++ [.activation .stop name]) ≤
      edgeCount .start name (events ++ [.activation .stop name])) :
    ∃ activation, drawing.openActivations.find? (·.actor = name) = some activation := by
  have hedge : ActivationEdge.stop ≠ .start := nofun
  have hopened := hcounts.opened name
  rw [edgeCount_append_same, edgeCount_append_other hedge, if_pos rfl] at hfollow
  obtain ⟨activation, hmem, hactor⟩ := List.countP_pos_iff.mp
    (show 0 < drawing.openActivations.countP (·.actor = name) by omega)
  rw [← Option.isSome_iff_exists, List.find?_isSome]
  exact ⟨activation, hmem, hactor⟩

theorem Counts.endActivation (hcounts : drawing.Counts events) {name : String}
    (hfollow : edgeCount .stop name (events ++ [.activation .stop name]) ≤
      edgeCount .start name (events ++ [.activation .stop name])) :
    (drawing.endActivation name).Counts (events ++ [.activation .stop name]) := by
  have hedge : ActivationEdge.stop ≠ .start := nofun
  obtain ⟨activation, hfound⟩ := hcounts.exists_open hfollow
  obtain ⟨placed, -, hended⟩ := endActivation_of_find? hfound
  -- Which of the actor's activations is taken out makes no difference to the counts.
  obtain ⟨first, front, back, -, hfirst, hopen, herase⟩ :=
    List.exists_of_eraseP (List.mem_of_find?_eq_some hfound) (List.find?_some hfound)
  have hactor : first.actor = name := of_decide_eq_true hfirst
  rw [hended, herase]
  refine ⟨fun other => ?_, ?_, ?_⟩
  · have hopened := hcounts.opened other
    rw [edgeCount_append_same, edgeCount_append_other hedge, ← hopened, hopen]
    change (front ++ back).countP (·.actor = other) + _ = _
    simp only [List.countP_append, List.countP_cons, hactor, decide_eq_true_eq]
    omega
  · have hstarted := hcounts.started
    rw [hopen, List.length_append, List.length_cons] at hstarted
    rw [List.countP_append, ← hstarted]
    change (front ++ back).length + (drawing.activations ++ [placed]).length = _ + 0
    rw [List.length_append, List.length_append, List.length_singleton]
    omega
  · rw [List.countP_append, ← hcounts.ended]
    exact List.length_append

theorem Counts.draw (hcounts : drawing.Counts events) {event : Event}
    (hfollow : ∀ name, edgeCount .stop name (events ++ [event]) ≤
      edgeCount .start name (events ++ [event]))
    (hdraw : drawing.draw pen event = .ok later) : later.Counts (events ++ [event]) := by
  have hother (hplain : ∀ edge name, event ≠ .activation edge name) :
      later.Counts (events ++ [event]) :=
    hcounts.plain hplain (draw_activations hplain hdraw).1 (draw_activations hplain hdraw).2
  cases event with
  | activation edge name =>
      cases edge with
      | start => exact hcounts.startActivation hdraw
      | stop =>
          rw [← Except.ok.inj hdraw]
          exact hcounts.endActivation (hfollow name)
  | message | note | block => exact hother nofun

theorem counts_drawActors (pen : Pen ℚ) (actors : List Actor) :
    (drawActors pen actors : Drawing ℚ ExactEdge).Counts [] := by
  obtain ⟨bounds, -, -, -, hdrawn⟩ := drawActors_eq pen actors
  rw [hdrawn]
  exact ⟨fun _ => rfl, rfl, rfl⟩

/-- The activations that are open have begun near the cursor or above it, and those that have ended
are high enough. -/
structure Paces (events : List Event) (drawing : Drawing ℚ ExactEdge) : Prop
    extends drawing.Counts events where
  begun : ∀ activation ∈ drawing.openActivations, activation.startY ≤ drawing.cursor + 2
  tall : ∀ activation ∈ drawing.activations, activation.startY + 18 ≤ activation.stopY

theorem cursor_le_finishActivation (activation : OpenActivation ℚ) (cursor : ℚ) :
    cursor ≤ (finishActivation activation cursor).stopY := by
  unfold finishActivation
  split
  · change cursor ≤ cursor + (12.0 : ℚ)
    linarith
  · exact le_refl cursor

/-- A short activation is stretched. -/
theorem finishActivation_tall (activation : OpenActivation ℚ) (cursor : ℚ) :
    (finishActivation activation cursor).startY + 18 ≤
      (finishActivation activation cursor).stopY := by
  unfold finishActivation
  split
  · change cursor - (6.0 : ℚ) + 18 ≤ cursor + (12.0 : ℚ)
    linarith
  · rename_i hlong
    have hlong : ¬cursor < activation.startY + (18.0 : ℚ) := of_decide_eq_false
      (Bool.eq_false_of_not_eq_true hlong)
    change activation.startY + 18 ≤ cursor
    linarith

theorem Paces.draw (hpaces : drawing.Paces events) (hpen : pen.NonNegative) {event : Event}
    (hfollow : ∀ name, edgeCount .stop name (events ++ [event]) ≤
      edgeCount .start name (events ++ [event]))
    (hdraw : drawing.draw pen event = .ok later) : later.Paces (events ++ [event]) := by
  have hcounts := hpaces.toCounts.draw hfollow hdraw
  have hother (hplain : ∀ edge name, event ≠ .activation edge name) :
      later.Paces (events ++ [event]) := by
    obtain ⟨hopen, hactivations⟩ := draw_activations hplain hdraw
    have hcursor := draw_plain hpen hplain hdraw
    refine ⟨hcounts, fun activation hmem => ?_, hactivations ▸ hpaces.tall⟩
    have hbegun := hpaces.begun activation (hopen ▸ hmem)
    linarith
  cases event with
  | activation edge name =>
      cases edge with
      | start =>
          obtain ⟨actor, activation, -, -, hstart, rfl⟩ := startActivation_eq_ok hdraw
          refine ⟨hcounts, List.forall_mem_cons.mpr ⟨?_, hpaces.begun⟩, hpaces.tall⟩
          rw [hstart]
          change drawing.cursor + (2.0 : ℚ) ≤ drawing.cursor + 2
          norm_num
      | stop =>
          obtain ⟨activation, hfound⟩ := hpaces.exists_open (hfollow name)
          obtain ⟨placed, hplaced, hended⟩ := endActivation_of_find? hfound
          rw [← Except.ok.inj hdraw] at hcounts ⊢
          refine ⟨hcounts, ?_, ?_⟩
          · rw [hended]
            exact fun other hmem => hpaces.begun other (List.mem_of_mem_eraseP hmem)
          · rw [hended]
            refine List.forall_mem_append.mpr ⟨hpaces.tall, List.forall_mem_singleton.mpr ?_⟩
            rw [hplaced]
            exact finishActivation_tall activation drawing.cursor
  | message | note | block => exact hother nofun

theorem paces_drawActors (pen : Pen ℚ) (actors : List Actor) :
    (drawActors pen actors : Drawing ℚ ExactEdge).Paces [] := by
  have hcounts := counts_drawActors pen actors
  obtain ⟨bounds, -, -, -, hdrawn⟩ := drawActors_eq pen actors
  rw [hdrawn] at hcounts ⊢
  exact ⟨hcounts, nofun, nofun⟩

/-! ### Activations that are left open

They are stopped where the cursor is in the end, and are not stretched. Since the cursor only goes
down, none stops further above its start than one that nothing follows. -/

theorem leftovers_perm (drawing : Drawing ℚ ExactEdge) :
    drawing.leftovers.Perm drawing.openActivations :=
  (List.mergeSort_perm ..).trans (List.reverse_perm _)

/-- The activations that are left open come after those that have ended. -/
theorem activations_stopActivations (drawing : Drawing ℚ ExactEdge) :
    ∃ remaining : List (OpenActivation ℚ), remaining.Perm drawing.openActivations ∧
      drawing.stopActivations.activations =
        drawing.activations ++ remaining.map (OpenActivation.stop · drawing.cursor) :=
  ⟨drawing.leftovers, drawing.leftovers_perm, drawing.stopActivations_activations⟩

end Drawing

/-- **Heights of activations.** Of the activations of a chart, those that end come first, one for
each end among the events, and are at least as high as the least height. The others are left open:
such an activation stops at the cursor, which may be above its start by the distance at which it
begins below the cursor, but not by more. -/
theorem Chart.Built.activations_heights {chart : Chart} (hbuilt : chart.Built)
    {settings : Settings ℚ} (hsettings : settings.sequence.NonNegative) {measurer : Measurer ℚ}
    (hmeasurer : measurer.NonNegative) {layout : Layout ℚ ExactEdge}
    (hlayout : chart.diagram.layout settings measurer = .ok layout) :
    ∃ ended left, layout.activations = ended ++ left ∧
      ended.length = chart.diagram.events.countP (Event.isEdge .stop) ∧
      ended.length + left.length = chart.diagram.events.countP (Event.isEdge .start) ∧
      (∀ activation ∈ ended, activation.startY + leastActivation ≤ activation.stopY) ∧
      ∀ activation ∈ left, activation.startY ≤ activation.stopY + 2 := by
  have hpen : (Pen.ofSettings settings measurer).NonNegative := ⟨hsettings, hmeasurer⟩
  obtain ⟨drawing, hdraw, hfinish⟩ := Diagram.exists_drawing hlayout
  have hpaces : drawing.Paces chart.diagram.events :=
    Drawing.drawAll_induction (fun hbefore hpaces hdraw =>
      hpaces.draw hpen (hbuilt.balanced.follow _ hbefore) hdraw) (List.nil_append _)
      (Drawing.paces_drawActors _ _) hdraw
  obtain ⟨remaining, hperm, hactivations⟩ := Drawing.activations_stopActivations drawing
  refine ⟨drawing.activations, remaining.map (Drawing.OpenActivation.stop · drawing.cursor),
    ?_, hpaces.ended, ?_, ?_, ?_⟩
  · obtain ⟨-, -, -, -, hstopped, -⟩ := Drawing.finish_keeps hfinish
    rw [hstopped, hactivations]
  · rw [List.length_map, hperm.length_eq, Nat.add_comm]
    exact hpaces.started
  · intro activation hmem
    have htall := hpaces.tall activation hmem
    rw [leastActivation]
    linarith
  · rintro activation hmem
    obtain ⟨opened, hopened, rfl⟩ := List.mem_map.mp hmem
    exact hpaces.begun opened (hperm.mem_iff.mp hopened)

theorem Settings.nonNegative_exact : Settings.exact.sequence.NonNegative := by
  intro key
  cases key <;> norm_num [Settings.exact, SequenceSettings.length]

theorem Grid.nonNegative_standard : (Grid.standard : Grid ℚ).measurer.NonNegative :=
  Grid.measurer_nonNegative (by norm_num [Grid.standard]) (by norm_num [Grid.standard])

/-- An activation that ends at once, before one that is left open. -/
def leftOpen : Chart :=
  Chart.empty.operateAll [.edit (.activate "A"), .edit (.deactivate "A"), .edit (.activate "B")]

theorem built_leftOpen : leftOpen.Built :=
  Chart.Built.operateAll (.new .standard) _

theorem leftOpen_heights : ∃ layout : Layout ℚ ExactEdge,
    leftOpen.diagram.layout .exact Grid.standard.measurer = .ok layout ∧
      ∃ ended left, layout.activations = ended ++ left ∧ ended.length = 1 ∧ left.length = 1 ∧
        (∀ activation ∈ ended, activation.startY + leastActivation ≤ activation.stopY) ∧
        ∀ activation ∈ left, activation.startY ≤ activation.stopY + 2 := by
  obtain ⟨layout, hlayout⟩ : ∃ layout : Layout ℚ ExactEdge,
      leftOpen.diagram.layout .exact Grid.standard.measurer = .ok layout :=
    Diagram.layout_eq_ok built_leftOpen.balanced.registered rfl .exact Grid.standard.measurer
  obtain ⟨ended, left, hactivations, hended, hboth, htall, hbegun⟩ :=
    built_leftOpen.activations_heights Settings.nonNegative_exact Grid.nonNegative_standard hlayout
  have hstops : leftOpen.diagram.events.countP (Event.isEdge .stop) = 1 := by decide +kernel
  have hstarts : leftOpen.diagram.events.countP (Event.isEdge .start) = 2 := by decide +kernel
  refine ⟨layout, hlayout, ended, left, hactivations, hended.trans hstops, ?_, htall, hbegun⟩
  omega

/-- What is left open, and starts last, stands upside down. -/
theorem leftOpen_upside_down :
    leftOpen.Built ∧ Settings.exact.sequence.NonNegative ∧
      (Grid.standard : Grid ℚ).measurer.NonNegative ∧
      ∃ layout : Layout ℚ ExactEdge,
        leftOpen.diagram.layout .exact Grid.standard.measurer = .ok layout ∧
        ∃ activation ∈ layout.activations, activation.stopY < activation.startY := by
  refine ⟨built_leftOpen, Settings.nonNegative_exact, Grid.nonNegative_standard, ?_⟩
  have hspans : (leftOpen.diagram.layout .exact Grid.standard.measurer :
      Except LayoutError (Layout ℚ ExactEdge)).toOption.map (·.activations.any fun activation =>
        activation.stopY < activation.startY) = some true := by decide +kernel
  cases hlayout : (leftOpen.diagram.layout .exact Grid.standard.measurer :
      Except LayoutError (Layout ℚ ExactEdge)) with
  | error fault =>
      rw [hlayout] at hspans
      cases hspans
  | ok layout =>
      rw [hlayout] at hspans
      obtain ⟨activation, hmem, hless⟩ := List.any_eq_true.mp (Option.some.inj hspans)
      exact ⟨layout, rfl, activation, hmem, of_decide_eq_true hless⟩

end SequenceChart
