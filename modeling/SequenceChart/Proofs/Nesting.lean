import SequenceChart.Grammar.Session
import SequenceChart.Layout.Basic
import SequenceChart.Proofs.Registry

/-!
# Nesting of blocks

The markers of a diagram, read in order, open, divide and close blocks. What is read from a text
nests: a reading keeps its own list of open blocks, and it is the list that the markers lead to.
-/

namespace SequenceChart

/-- How a marker changes the kinds of the open blocks, the innermost first. -/
def BlockMarker.nest (opened : List BlockKind) :
    BlockMarker → Except LayoutError (List BlockKind)
  | opening kind => .ok (kind :: opened)
  | divider kind =>
      if opened.head? = some kind.block then .ok opened else .error (.dividerOutsideBlock kind)
  | closing kind =>
      match opened with
      | [] => .error (.nothingToClose kind)
      | inner :: outer => if inner = kind then .ok outer else .error (.otherBlockOpen kind inner)

def Event.marker? : Event → Option BlockMarker
  | block marker _ => some marker
  | _ => none

/-- How an event changes the kinds of the open blocks. -/
def Event.nest (opened : List BlockKind) (event : Event) : Except LayoutError (List BlockKind) :=
  match event.marker? with
  | some marker => marker.nest opened
  | none => .ok opened

namespace Diagram

/-- The kinds of the blocks that the events leave open. -/
def nesting (diagram : Diagram) : Except LayoutError (List BlockKind) :=
  diagram.events.foldlM Event.nest []

/-- The events nest and leave no block open. -/
def WellNested (diagram : Diagram) : Prop :=
  diagram.nesting = .ok []

theorem foldlM_nest_eq_of_markers_eq {left right : List Event}
    (hmarkers : left.map Event.marker? = right.map Event.marker?) (opened : List BlockKind) :
    left.foldlM Event.nest opened = right.foldlM Event.nest opened := by
  have hfold : ∀ events : List Event, events.foldlM Event.nest opened =
      (events.map Event.marker?).foldlM
        (fun opened marker => match marker with
          | some marker => BlockMarker.nest opened marker
          | none => .ok opened) opened := by
    intro events
    rw [List.foldlM_map]
    rfl
  rw [hfold, hfold, hmarkers]

variable {diagram before after : Diagram} {opened : List BlockKind}

theorem nesting_addEvent {event : Event} {next : List BlockKind}
    (hnesting : before.nesting = .ok opened) (hevents : after.events = before.events ++ [event])
    (hnest : event.nest opened = .ok next) : after.nesting = .ok next := by
  unfold nesting at hnesting ⊢
  rw [hevents, List.foldlM_append, hnesting]
  simp only [List.foldlM_cons, List.foldlM_nil]
  change event.nest opened >>= pure = _
  rw [hnest]
  rfl

theorem nesting_of_events_eq (hevents : after.events = before.events) :
    after.nesting = before.nesting :=
  congrArg (·.foldlM Event.nest []) hevents

theorem nesting_enableAutonumber (diagram : Diagram) :
    diagram.enableAutonumber.nesting = diagram.nesting :=
  foldlM_nest_eq_of_markers_eq (enableAutonumber_map Event.marker? diagram fun _ _ => rfl) []

end Diagram

namespace Session

/-- The events of the chart name registered actors only, and leave those blocks open that the
session holds open. -/
structure Coherent (session : Session) : Prop where
  registered : session.chart.diagram.Registered
  nesting : session.chart.diagram.nesting = .ok (session.openBlocks.map Prod.fst)

variable {session : Session}

theorem Coherent.of_diagram_eq {before after : Session} (hcoherent : before.Coherent)
    (hdiagram : after.chart.diagram = before.chart.diagram)
    (hblocks : after.openBlocks = before.openBlocks) : after.Coherent :=
  ⟨hdiagram ▸ hcoherent.registered, hdiagram ▸ hblocks ▸ hcoherent.nesting⟩

theorem passSwitches_diagram (offset : Nat) (chart : Chart) (switches : List WrapSwitch) :
    (passSwitches offset chart switches).1.diagram = chart.diagram := by
  induction switches generalizing chart with
  | nil => rfl
  | cons switch rest ih =>
      unfold passSwitches
      split
      · exact ih (chart.setWrap switch.enabled)
      · rfl

theorem Coherent.reach (hcoherent : session.Coherent) (offset : Nat) :
    (session.reach offset).Coherent :=
  hcoherent.of_diagram_eq (passSwitches_diagram ..) rfl

/-- An operation that adds an event other than a marker keeps a session coherent. -/
theorem Coherent.withEvent {chart : Chart} {event : Event} (hcoherent : session.Coherent)
    (hregistered : chart.diagram.Registered)
    (hevents : chart.diagram.events = session.chart.diagram.events ++ [event])
    (hmarker : event.marker? = none) : ({ session with chart } : Session).Coherent := by
  refine ⟨hregistered, Diagram.nesting_addEvent hcoherent.nesting hevents ?_⟩
  simp [Event.nest, hmarker]

theorem Coherent.deactivate (hcoherent : session.Coherent) (actor : String) :
    (session.deactivate actor).1.Coherent := by
  unfold Session.deactivate Chart.deactivate?
  cases hdeactivate : session.chart.diagram.deactivate? actor with
  | none => exact hcoherent
  | some diagram =>
      have hevents := (Diagram.deactivate?_eq_some hdeactivate).2.1
      exact hcoherent.withEvent (hcoherent.registered.deactivate? hdeactivate) hevents rfl

theorem Coherent.addMessage (hcoherent : session.Coherent) (source target : String)
    (kind : MessageKind) (edge : Option ActivationEdge) (text : String) :
    (session.addMessage source target kind edge text).1.Coherent := by
  have hsent : ({ session with
      chart := session.chart.addMessage source target kind text } : Session).Coherent :=
    hcoherent.withEvent (hcoherent.registered.addMessage _ _ _ _ _)
      (Diagram.events_addMessage ..) rfl
  match edge with
  | none => exact hsent
  | some .start =>
      exact hsent.withEvent (hsent.registered.activate _ _) (Diagram.events_activate ..) rfl
  | some .stop => exact hsent.deactivate source

theorem Coherent.withMarker (hcoherent : session.Coherent) {marker : BlockMarker}
    {openBlocks : List (BlockKind × Nat)} (label : Option String)
    (hnest : marker.nest (session.openBlocks.map Prod.fst) = .ok (openBlocks.map Prod.fst)) :
    ({ session with
      chart := session.chart.addBlockMarker marker label, openBlocks } : Session).Coherent :=
  ⟨hcoherent.registered.addBlockMarker _ _, Diagram.nesting_addEvent hcoherent.nesting rfl hnest⟩

theorem Coherent.divideBlock (hcoherent : session.Coherent) (kind : SectionKind)
    (label : String) : (session.divideBlock kind label).1.Coherent := by
  unfold Session.divideBlock
  split
  · rename_i hinner
    refine hcoherent.withMarker (some label) ?_
    rw [← List.head?_map] at hinner
    simp [BlockMarker.nest, hinner]
  · exact hcoherent

theorem Coherent.closeBlock (hcoherent : session.Coherent) : session.closeBlock.1.Coherent := by
  unfold Session.closeBlock
  split
  · exact hcoherent
  · rename_i hblocks
    refine hcoherent.withMarker none ?_
    simp [hblocks, BlockMarker.nest]

theorem Coherent.carryOut (hcoherent : session.Coherent) (offset : Nat) (statement : Statement) :
    (session.carryOut offset statement).1.Coherent := by
  cases statement with
  | declare role id label =>
      refine ⟨hcoherent.registered.register _ _ _ _, ?_⟩
      exact (Diagram.nesting_of_events_eq (Diagram.events_declareActor ..)).trans hcoherent.nesting
  | autonumber =>
      refine ⟨hcoherent.registered.enableAutonumber, ?_⟩
      exact (Diagram.nesting_enableAutonumber _).trans hcoherent.nesting
  | title text => exact ⟨hcoherent.registered, hcoherent.nesting⟩
  | accTitle text => exact ⟨hcoherent.registered, hcoherent.nesting⟩
  | accDescription text => exact ⟨hcoherent.registered, hcoherent.nesting⟩
  | activate actor =>
      exact hcoherent.withEvent (hcoherent.registered.activate _ _)
        (Diagram.events_activate ..) rfl
  | deactivate actor => exact hcoherent.deactivate actor
  | note placement first second text =>
      exact hcoherent.withEvent (hcoherent.registered.addNote _ _ _ _ _)
        (Diagram.events_addNote ..) rfl
  | opening kind label => exact hcoherent.withMarker (some label) rfl
  | divider kind label => exact hcoherent.divideBlock kind label
  | closing => exact hcoherent.closeBlock
  | message source target kind edge text => exact hcoherent.addMessage source target kind edge text

theorem Coherent.step (hcoherent : session.Coherent) (item : Nat × Statement) :
    (session.step item).1.Coherent :=
  (hcoherent.reach item.1).carryOut item.1 item.2

theorem Coherent.finish (hcoherent : session.Coherent) (ending : Ending) :
    (session.finish ending).1.Coherent := by
  cases ending with
  | complete offset => exact hcoherent.reach offset
  | unreadable offset complaint => exact hcoherent.reach offset
  | cluttered offset complaint => exact hcoherent

theorem Coherent.run (hcoherent : session.Coherent) (script : Script) :
    (session.run script).1.Coherent := by
  have hsteps :
      (runSteps Session.step (session.reach script.header) script.statements).1.Coherent :=
    runSteps_preserves Coherent (fun _ item hstate => hstate.step item)
      (hcoherent.reach script.header) script.statements
  unfold Session.run
  split
  · rename_i hrun
    rw [hrun] at hsteps
    exact hsteps.finish script.ending
  · rename_i hrun
    rw [hrun] at hsteps
    exact hsteps

/-- A reading without a fault has closed every block. -/
theorem openBlocks_of_run {script : Script} {last : Session}
    (hrun : session.run script = (last, none)) : last.openBlocks = [] := by
  unfold Session.run at hrun
  split at hrun
  · unfold Session.finish at hrun
    split at hrun
    · rename_i state _ _ offset _
      obtain ⟨rfl, hnone⟩ := Prod.mk.inj hrun
      have hblocks : (state.reach offset).openBlocks = state.openBlocks := rfl
      simpa [hblocks] using hnone
    · exact nomatch (Prod.mk.inj hrun).2
    · exact nomatch (Prod.mk.inj hrun).2
  · exact nomatch (Prod.mk.inj hrun).2

end Session

/-- What is read without a fault into a chart without events is well nested. -/
theorem Chart.wellNested_of_readCode {chart left : Chart} {code : String}
    {switches : List WrapSwitch} (hevents : chart.diagram.events = [])
    (hread : chart.readCode code switches = (left, none)) :
    left.diagram.Registered ∧ left.diagram.WellNested := by
  have hstart : (Session.mk chart switches []).Coherent := by
    refine ⟨?_, ?_⟩
    · intro event hevent
      rw [show (Session.mk chart switches []).chart.diagram.events = [] from hevents] at hevent
      exact nomatch hevent
    · simp [Diagram.nesting, hevents]
      rfl
  obtain ⟨last, hrun, rfl⟩ :
      ∃ last, Session.run ⟨chart, switches, []⟩ (Script.read code.toList) = (last, none) ∧
        last.chart = left := by
    obtain ⟨hchart, hnone⟩ := Prod.mk.inj hread
    exact ⟨_, Prod.ext rfl (Option.map_eq_none_iff.mp hnone), hchart⟩
  have hend := hstart.run (Script.read code.toList)
  rw [hrun] at hend
  refine ⟨hend.registered, ?_⟩
  have hnesting := hend.nesting
  rw [Session.openBlocks_of_run hrun] at hnesting
  exact hnesting

end SequenceChart
