import SequenceChart.Proofs.Phases

/-!
# Operations on charts

What can be done to a chart, one operation at a time. Reading comes down to edits: statements are
carried out by edits, and so are switches. What edits preserve therefore holds of every chart that
is built from a new one, also where a reading fails midway.
-/

namespace SequenceChart

/-- A change that keeps what is in a chart. -/
inductive Edit
  | addActor (id : String) (label : Option String)
  | declareActor (id : String) (label : Option String) (role : ActorRole)
  | addMessage (source target : String) (kind : MessageKind) (text : String)
  | activate (id : String)
  | deactivate (id : String)
  | addNote (placement : NotePlacement) (first : String) (second : Option String) (text : String)
  | addBlockMarker (marker : BlockMarker) (label : Option String)
  | setTitle (title : String)
  | setAccTitle (title : String)
  | setAccDescription (description : String)
  | enableAutonumber
  | setWrap (wrap : Bool)
  | configure (settings : Settings Float)

inductive Operation
  | edit (edit : Edit)
  | clear
  | readCode (code : String) (switches : List WrapSwitch)
  | parse (engine : Engine) (text : String)

namespace Chart

/-- An activation that cannot end leaves the chart as it is. -/
def edit (chart : Chart) : Edit → Chart
  | .addActor id label => chart.addActor id label
  | .declareActor id label role => chart.declareActor id label role
  | .addMessage source target kind text => chart.addMessage source target kind text
  | .activate id => chart.activate id
  | .deactivate id => (chart.deactivate? id).getD chart
  | .addNote placement first second text => chart.addNote placement first second text
  | .addBlockMarker marker label => chart.addBlockMarker marker label
  | .setTitle title => chart.setTitle title
  | .setAccTitle title => chart.setAccTitle title
  | .setAccDescription description => chart.setAccDescription description
  | .enableAutonumber => chart.enableAutonumber
  | .setWrap wrap => chart.setWrap wrap
  | .configure settings => { chart with settings }

/-- What a reading leaves counts, whether it fails or not. -/
def operate (chart : Chart) : Operation → Chart
  | .edit edit => chart.edit edit
  | .clear => chart.clear
  | .readCode code switches => (chart.readCode code switches).1
  | .parse engine text => (engine.parseInto chart text).1

/-- The charts that operations make of a new one. -/
inductive Built : Chart → Prop
  | new (settings : Settings Float) : Built (withSettings settings)
  | operate {chart : Chart} (hbuilt : Built chart) (operation : Operation) :
      Built (chart.operate operation)

def operateAll (chart : Chart) (operations : List Operation) : Chart :=
  operations.foldl operate chart

theorem Built.operateAll {chart : Chart} (hbuilt : chart.Built) (operations : List Operation) :
    (chart.operateAll operations).Built := by
  induction operations generalizing chart with
  | nil => exact hbuilt
  | cons operation operations ih => exact ih (hbuilt.operate operation)

/-- No edit breaks the invariant. -/
def KeptByEdits (Invariant : Chart → Prop) : Prop :=
  ∀ (chart : Chart) (edit : Edit), Invariant chart → Invariant (chart.edit edit)

end Chart

variable {Invariant : Chart → Prop}

namespace Session

variable {session : Session}

theorem passSwitches_preserves (hkept : Chart.KeptByEdits Invariant) (offset : Nat) {chart : Chart}
    (hchart : Invariant chart) (switches : List WrapSwitch) :
    Invariant (passSwitches offset chart switches).1 := by
  induction switches generalizing chart with
  | nil => exact hchart
  | cons switch rest ih =>
      unfold passSwitches
      split
      · exact ih (hkept chart (.setWrap switch.enabled) hchart)
      · exact hchart

theorem deactivate_preserves (hkept : Chart.KeptByEdits Invariant)
    (hchart : Invariant session.chart) (actor : String) :
    Invariant (session.deactivate actor).1.chart := by
  have hedit : Invariant ((session.chart.deactivate? actor).getD session.chart) :=
    hkept session.chart (.deactivate actor) hchart
  unfold deactivate
  cases hdeactivate : session.chart.deactivate? actor with
  | none => exact hchart
  | some chart =>
      rw [hdeactivate] at hedit
      exact hedit

theorem carryOut_preserves (hkept : Chart.KeptByEdits Invariant)
    (hchart : Invariant session.chart) (offset : Nat) (statement : Statement) :
    Invariant (session.carryOut offset statement).1.chart := by
  cases statement with
  | declare role id label => exact hkept _ (.declareActor id label role) hchart
  | autonumber => exact hkept _ .enableAutonumber hchart
  | title text => exact hkept _ (.setTitle text) hchart
  | accTitle text => exact hkept _ (.setAccTitle text) hchart
  | accDescription text => exact hkept _ (.setAccDescription text) hchart
  | activate actor => exact hkept _ (.activate actor) hchart
  | deactivate actor => exact deactivate_preserves hkept hchart actor
  | note placement first second text => exact hkept _ (.addNote placement first second text) hchart
  | opening kind label => exact hkept _ (.addBlockMarker (.opening kind) (some label)) hchart
  | divider kind label =>
      rw [carryOut, divideBlock]
      split
      · exact hkept _ (.addBlockMarker (.divider kind) (some label)) hchart
      · exact hchart
  | closing =>
      rw [carryOut, closeBlock]
      split
      · exact hchart
      · rename_i kind _ _ _
        exact hkept _ (.addBlockMarker (.closing kind) none) hchart
  | message source target kind edge text =>
      have hsent := hkept _ (.addMessage source target kind text) hchart
      rcases edge with _ | _ | _
      · exact hsent
      · exact hkept _ (.activate target) hsent
      · have hstopped : Invariant (({ session with
            chart := session.chart.addMessage source target kind text } : Session).deactivate
              source).1.chart := deactivate_preserves hkept hsent source
        exact hstopped

theorem finish_preserves (hkept : Chart.KeptByEdits Invariant) (hchart : Invariant session.chart)
    (ending : Ending) : Invariant (session.finish ending).1.chart := by
  cases ending with
  | complete offset => exact passSwitches_preserves hkept offset hchart session.switches
  | unreadable offset complaint =>
      exact passSwitches_preserves hkept offset hchart session.switches
  | cluttered offset complaint => exact hchart

theorem run_preserves (hkept : Chart.KeptByEdits Invariant) (hchart : Invariant session.chart)
    (script : Script) : Invariant (session.run script).1.chart := by
  have hreach (state : Session) (offset : Nat) (hstate : Invariant state.chart) :
      Invariant (state.reach offset).chart :=
    passSwitches_preserves hkept offset hstate state.switches
  have hsteps :
      Invariant (runSteps step (session.reach script.header) script.statements).1.chart := by
    apply runSteps_preserves (fun state : Session => Invariant state.chart)
    · intro state item hstate
      exact carryOut_preserves hkept (hreach state item.1 hstate) item.1 item.2
    · exact hreach session script.header hchart
  unfold run
  split
  · rename_i hrun
    rw [hrun] at hsteps
    exact finish_preserves hkept hsteps script.ending
  · rename_i hrun
    rw [hrun] at hsteps
    exact hsteps

end Session

namespace Chart

theorem readCode_preserves (hkept : KeptByEdits Invariant) {chart : Chart}
    (hchart : Invariant chart) (code : String) (switches : List WrapSwitch) :
    Invariant (chart.readCode code switches).1 := by
  have hstart : Invariant (Session.mk chart switches []).chart := hchart
  exact Session.run_preserves hkept hstart (Script.read code.toList)

theorem startChart_preserves (hkept : KeptByEdits Invariant) {settings : Settings Float}
    (hnew : Invariant (withSettings settings)) (title : Option String) :
    Invariant (Engine.startChart settings title) := by
  unfold Engine.startChart
  dsimp only
  split
  · rename_i title _
    exact hkept _ (.setTitle title) hnew
  · exact hnew

theorem parseInto_preserves (hkept : KeptByEdits Invariant)
    (hnew : ∀ settings, Invariant (withSettings settings)) (engine : Engine) (chart : Chart)
    (text : String) : Invariant (engine.parseInto chart text).1 := by
  rcases Engine.parseInto_cases engine chart text with
    ⟨fault, hphase⟩ | ⟨fault, hphase⟩ |
    ⟨source, settings, left, -, -, hcode⟩
  · rw [hphase]
    exact hnew .standard
  · rw [hphase]
    exact hnew .standard
  · have hread := readCode_preserves hkept (startChart_preserves hkept (hnew settings) source.title)
      source.code source.switches
    rcases hcode with ⟨error, hcode, hphase⟩ | ⟨hcode, hphase⟩ <;>
      · rw [hcode] at hread
        rw [hphase]
        exact hread

/-- What holds of new charts and is kept by edits holds of every chart. -/
theorem Built.invariant (hkept : KeptByEdits Invariant)
    (hnew : ∀ settings, Invariant (withSettings settings)) {chart : Chart} (hbuilt : chart.Built) :
    Invariant chart := by
  induction hbuilt with
  | new settings => exact hnew settings
  | @operate chart hbuilt operation ih =>
      cases operation with
      | edit edit => exact hkept chart edit ih
      | clear => exact hnew .standard
      | readCode code switches => exact readCode_preserves hkept ih code switches
      | parse engine text => exact parseInto_preserves hkept hnew engine chart text

end Chart

end SequenceChart
