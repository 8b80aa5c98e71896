import Mathlib.Data.List.Forall2
import Mathlib.Data.List.TakeWhile
import SequenceChart.Proofs.Composition
import SequenceChart.Proofs.Markers
import SequenceChart.Proofs.Phases
import SequenceChart.Proofs.Registry
import SequenceChart.Proofs.Starts

/-!
# Wrapping by position

Each message and each note of a chart is what a statement says. Its lines are wrapped as the marker
of its text tells, or else as the last switch tells that stands before the statement in the source,
or else as the settings tell.
-/

namespace SequenceChart

def Event.isUttered : Event → Bool
  | message _ | note _ => true
  | activation _ _ | block _ _ => false

def Statement.isUttered : Statement → Bool
  | message .. | note .. => true
  | _ => false

/-- The text is wrapped as its marker says, or as `wrap` says if it has none. -/
def TextWraps (raw : String) (wrap wrapped : Bool) : Prop :=
  Marks raw wrapped ∨ (∀ other, ¬Marks raw other) ∧ wrapped = wrap

/-- The event is what the statement says, where `wrap` holds for texts without a marker. -/
inductive Statement.Utters (wrap : Bool) : Statement → Event → Prop
  | message {source target text : String} {kind : MessageKind} {edge : Option ActivationEdge}
      {wrapped : Bool} (sequenceNumber : Option UInt32) :
      TextWraps text wrap wrapped →
      Utters wrap (.message source target kind edge text)
        (.message
          { kind, source, target, sequenceNumber
            text := (MarkedText.read text).text
            wrap := wrapped })
  | note {placement : NotePlacement} {first text : String} {second : Option String}
      {wrapped : Bool} :
      TextWraps text wrap wrapped →
      Utters wrap (.note placement first second text)
        (.note
          { placement, first
            second := second.getD first
            text := (MarkedText.read text).text
            wrap := wrapped })

/-- The messages and notes of the chart are those of the statements, in order. -/
def Chart.Tells (chart : Chart) (wrapAt : Nat → Bool) (items : List (Nat × Statement)) : Prop :=
  List.Forall₂ (fun event item => item.2.Utters (wrapAt item.1) event)
    (chart.diagram.events.filter Event.isUttered) (items.filter (·.2.isUttered))

theorem textWraps_read (raw : String) (wrap : Bool) :
    TextWraps raw wrap ((MarkedText.read raw).wrap.getD wrap) := by
  rcases MarkedText.wrap_read raw with ⟨wrapped, hread, hmarks, -⟩ | ⟨hread, hnone⟩
  · rw [hread]
    exact .inl hmarks
  · rw [hread]
    exact .inr ⟨hnone, rfl⟩

namespace Chart.Tells

variable {chart later : Chart} {wrapAt : Nat → Bool} {items : List (Nat × Statement)}

theorem of_events_eq (htells : chart.Tells wrapAt items)
    (hevents : later.diagram.events = chart.diagram.events) : later.Tells wrapAt items := by
  unfold Chart.Tells
  rw [hevents]
  exact htells

theorem silent (htells : chart.Tells wrapAt items) {event : Event}
    (hevents : later.diagram.events = chart.diagram.events ++ [event])
    (hsilent : event.isUttered = false) : later.Tells wrapAt items := by
  unfold Chart.Tells
  rw [hevents, List.filter_append, List.filter_cons_of_neg (by simp [hsilent]), List.filter_nil,
    List.append_nil]
  exact htells

/-- A statement that says nothing is passed over. -/
theorem pass (htells : chart.Tells wrapAt items) (offset : Nat) {statement : Statement}
    (hsilent : statement.isUttered = false) :
    chart.Tells wrapAt (items ++ [(offset, statement)]) := by
  unfold Chart.Tells
  rw [List.filter_append, List.filter_cons_of_neg (by simp [hsilent]), List.filter_nil,
    List.append_nil]
  exact htells

theorem utter (htells : chart.Tells wrapAt items) {offset : Nat} {statement : Statement}
    {event : Event} (hevents : later.diagram.events = chart.diagram.events ++ [event])
    (hutters : statement.Utters (wrapAt offset) event) :
    later.Tells wrapAt (items ++ [(offset, statement)]) := by
  have huttered : event.isUttered = true ∧ statement.isUttered = true := by
    cases hutters <;> exact ⟨rfl, rfl⟩
  unfold Chart.Tells
  rw [hevents, List.filter_append, List.filter_append]
  apply List.rel_append htells
  simp only [List.filter_cons, huttered, if_true, List.filter_nil]
  exact .cons hutters .nil

theorem renumber {wrap : Bool} {statement : Statement} {message : Message}
    (hutters : statement.Utters wrap (.message message)) (sequenceNumber : Option UInt32) :
    statement.Utters wrap (.message { message with sequenceNumber }) := by
  cases hutters with
  | message _ hwraps => exact .message sequenceNumber hwraps

theorem numberMessages {events : List Event} {said : List (Nat × Statement)} (count : UInt32)
    (htells : List.Forall₂ (fun event item => item.2.Utters (wrapAt item.1) event)
      (events.filter Event.isUttered) said) :
    List.Forall₂ (fun event item => item.2.Utters (wrapAt item.1) event)
      ((Diagram.numberMessages count events).filter Event.isUttered) said := by
  induction events generalizing count said with
  | nil => exact htells
  | cons event rest ih =>
      cases event with
      | message message =>
          cases htells with
          | cons hfirst hrest => exact .cons (renumber hfirst _) (ih _ hrest)
      | note note =>
          cases htells with
          | cons hfirst hrest => exact .cons hfirst (ih count hrest)
      | activation | block => exact ih count htells

theorem enableAutonumber (htells : chart.Tells wrapAt items) :
    chart.enableAutonumber.Tells wrapAt items := by
  unfold Chart.enableAutonumber Diagram.enableAutonumber
  split
  · exact htells
  · exact numberMessages 0 htells

theorem deactivate {session : Session} (htells : session.chart.Tells wrapAt items)
    (actor : String) : (session.deactivate actor).1.chart.Tells wrapAt items := by
  unfold Session.deactivate Chart.deactivate?
  cases hdeactivate : session.chart.diagram.deactivate? actor with
  | none => exact htells
  | some diagram => exact htells.silent (Diagram.deactivate?_eq_some hdeactivate).2.1 rfl

/-- Carrying out a statement adds what it says, also if it fails. -/
theorem carryOut {session : Session} (htells : session.chart.Tells wrapAt items) (offset : Nat)
    (hwrap : session.chart.wrapEnabled = wrapAt offset) (statement : Statement) :
    (session.carryOut offset statement).1.chart.Tells wrapAt (items ++ [(offset, statement)]) := by
  cases statement with
  | declare role id label =>
      exact (htells.of_events_eq (Diagram.events_declareActor ..)).pass offset rfl
  | autonumber => exact htells.enableAutonumber.pass offset rfl
  | title | accTitle | accDescription => exact (htells.of_events_eq rfl).pass offset rfl
  | activate actor => exact (htells.silent (Diagram.events_activate ..) rfl).pass offset rfl
  | deactivate actor => exact (htells.deactivate actor).pass offset rfl
  | note placement first second text =>
      apply htells.utter (Diagram.events_addNote ..)
      rw [← hwrap]
      exact .note (textWraps_read text _)
  | opening kind label => exact (htells.silent rfl rfl).pass offset rfl
  | divider kind label =>
      rw [Session.carryOut, Session.divideBlock]
      split
      · exact (htells.silent rfl rfl).pass offset rfl
      · exact htells.pass offset rfl
  | closing =>
      rw [Session.carryOut, Session.closeBlock]
      split
      · exact htells.pass offset rfl
      · exact (htells.silent rfl rfl).pass offset rfl
  | message source target kind edge text =>
      have hsent : (session.chart.addMessage source target kind text).Tells wrapAt
          (items ++ [(offset, .message source target kind edge text)]) := by
        apply htells.utter (Diagram.events_addMessage ..)
        rw [← hwrap]
        exact .message _ (textWraps_read text _)
      rw [Session.carryOut]
      unfold Session.addMessage
      split
      · exact hsent
      · exact hsent.silent (Diagram.events_activate ..) rfl
      · exact deactivate hsent source

end Chart.Tells

namespace Settings

variable {α : Type}

/-- The settings after the switches. -/
def switched (settings : Settings α) (switches : List WrapSwitch) : Settings α :=
  switches.foldl (fun settings switch => settings.setWrap switch.enabled) settings

theorem switched_append (settings : Settings α) (early late : List WrapSwitch) :
    settings.switched (early ++ late) = (settings.switched early).switched late :=
  List.foldl_append

end Settings

namespace Session

variable {session : Session} {settings : Settings Float} {switches : List WrapSwitch}
  {offset later : Nat}

theorem passSwitches_eq (offset : Nat) (chart : Chart) (switches : List WrapSwitch) :
    passSwitches offset chart switches =
      ({ chart with settings :=
          chart.settings.switched (switches.takeWhile (·.offset ≤ offset)) },
        switches.dropWhile (·.offset ≤ offset)) := by
  induction switches generalizing chart with
  | nil => rfl
  | cons switch rest ih =>
      rw [passSwitches, List.takeWhile_cons, List.dropWhile_cons]
      by_cases hle : switch.offset ≤ offset
      · rw [if_pos hle, ih, if_pos (decide_eq_true hle), if_pos (decide_eq_true hle)]
        rfl
      · rw [if_neg hle, if_neg (by simpa using hle), if_neg (by simpa using hle)]
        rfl

/-- Of all switches, those that stand no later than `offset` have taken effect. -/
structure Passed (settings : Settings Float) (switches : List WrapSwitch) (offset : Nat)
    (session : Session) : Prop where
  settings : session.chart.settings =
    settings.switched (switches.takeWhile (·.offset ≤ offset))
  switches : session.switches = switches.dropWhile (·.offset ≤ offset)

theorem Passed.start (hsettings : session.chart.settings = settings)
    (hswitches : session.switches = switches) (offset : Nat) :
    (session.reach offset).Passed settings switches offset := by
  unfold reach
  rw [passSwitches_eq, hsettings, hswitches]
  exact ⟨rfl, rfl⟩

theorem Passed.reach (hpassed : session.Passed settings switches offset) (hle : offset ≤ later) :
    (session.reach later).Passed settings switches later := by
  have hearly : ∀ switch ∈ switches.takeWhile (·.offset ≤ offset),
      decide (switch.offset ≤ later) = true := by
    intro switch hswitch
    have hoffset := List.all_eq_true.mp List.all_takeWhile switch hswitch
    rw [decide_eq_true_eq] at hoffset ⊢
    exact Nat.le_trans hoffset hle
  have hsplit := List.takeWhile_append_dropWhile (p := fun switch : WrapSwitch =>
    decide (switch.offset ≤ offset)) (l := switches)
  have htake : switches.takeWhile (·.offset ≤ later) =
      switches.takeWhile (·.offset ≤ offset) ++
        (switches.dropWhile (·.offset ≤ offset)).takeWhile (·.offset ≤ later) := by
    conv_lhs => rw [← hsplit]
    exact List.takeWhile_append_of_pos hearly
  have hdrop : switches.dropWhile (·.offset ≤ later) =
      (switches.dropWhile (·.offset ≤ offset)).dropWhile (·.offset ≤ later) := by
    conv_lhs => rw [← hsplit]
    exact List.dropWhile_append_of_pos hearly
  unfold Session.reach
  rw [passSwitches_eq, hpassed.settings, hpassed.switches]
  refine ⟨?_, hdrop.symm⟩
  rw [htake, Settings.switched_append]

theorem settings_deactivate (session : Session) (actor : String) :
    (session.deactivate actor).1.chart.settings = session.chart.settings := by
  unfold deactivate Chart.deactivate?
  cases session.chart.diagram.deactivate? actor <;> rfl

theorem settings_carryOut (session : Session) (offset : Nat) (statement : Statement) :
    (session.carryOut offset statement).1.chart.settings = session.chart.settings := by
  cases statement with
  | deactivate actor => exact session.settings_deactivate actor
  | divider kind label =>
      rw [carryOut, divideBlock]
      split <;> rfl
  | closing =>
      rw [carryOut, closeBlock]
      split <;> rfl
  | message source target kind edge text =>
      rcases edge with _ | _ | _
      · rfl
      · rfl
      · exact settings_deactivate _ source
  | _ => rfl

theorem Passed.carryOut (hpassed : session.Passed settings switches offset)
    (statement : Statement) :
    (session.carryOut offset statement).1.Passed settings switches offset :=
  ⟨(session.settings_carryOut offset statement).trans hpassed.settings,
    (session.carryOut_switches offset statement).trans hpassed.switches⟩

/-- Whether lines are wrapped behind the switches that stand no later than `offset`. -/
def wrapAt (settings : Settings Float) (switches : List WrapSwitch) (offset : Nat) : Bool :=
  lastEnabled settings.wrapEnabled (switches.takeWhile (·.offset ≤ offset))

variable {told items : List (Nat × Statement)}

end Session

namespace Source

variable {source : Source} {text : String}

end Source

end SequenceChart
