import SequenceChart.Grammar.Session
import SequenceChart.Proofs.ReadingBack

/-!
# Composing charts

A list of statements says what is done to a chart, without any text in which the statements stand.
The main statement: reading the code of a printed diagram does to a chart what its statements say,
with the same fault if there is one.
-/

namespace SequenceChart

/-- A chart in the making, and the kinds of the blocks that are open in it, the innermost first. -/
structure Draft where
  chart : Chart
  opened : List BlockKind

namespace Draft

def withChart (draft : Draft) (chart : Chart) : Draft × Option Fault :=
  ({ draft with chart }, none)

def deactivate (draft : Draft) (actor : String) : Draft × Option Fault :=
  match draft.chart.deactivate? actor with
  | some chart => draft.withChart chart
  | none => (draft, some (.inactive actor))

/-- What a statement does. A message is sent before an activation starts or ends with it. -/
def write (draft : Draft) : Statement → Draft × Option Fault
  | .declare role id label => draft.withChart (draft.chart.declareActor id label role)
  | .autonumber => draft.withChart draft.chart.enableAutonumber
  | .title text => draft.withChart (draft.chart.setTitle text)
  | .accTitle text => draft.withChart (draft.chart.setAccTitle text)
  | .accDescription text => draft.withChart (draft.chart.setAccDescription text)
  | .activate actor => draft.withChart (draft.chart.activate actor)
  | .deactivate actor => draft.deactivate actor
  | .note placement first second text =>
      draft.withChart (draft.chart.addNote placement first second text)
  | .opening kind label =>
      ({ chart := draft.chart.addBlockMarker (.opening kind) (some label)
         opened := kind :: draft.opened }, none)
  | .divider kind label =>
      if draft.opened.head? = some kind.block then
        draft.withChart (draft.chart.addBlockMarker (.divider kind) (some label))
      else (draft, some (.complaint (.outsideBlock kind)))
  | .closing =>
      match draft.opened with
      | [] => (draft, some (.complaint .nothingToEnd))
      | kind :: outer =>
          ({ chart := draft.chart.addBlockMarker (.closing kind) none, opened := outer }, none)
  | .message source target kind edge text =>
      let sent := { draft with chart := draft.chart.addMessage source target kind text }
      match edge with
      | none => (sent, none)
      | some .start => sent.withChart (sent.chart.activate target)
      | some .stop => sent.deactivate source

/-- A block that is still open is a fault. -/
def finish (draft : Draft) : Option Fault :=
  draft.opened.head?.map fun kind => .complaint (.unclosedBlock kind)

end Draft

/-- Carries out statements in order, up to the first that fails. -/
def Chart.compose (chart : Chart) (statements : List Statement) : Chart × Option Fault :=
  match runSteps Draft.write ⟨chart, []⟩ statements with
  | (draft, none) => (draft.chart, draft.finish)
  | (draft, some fault) => (draft.chart, some fault)

theorem MarkedText.read_trimmed (text : String) :
    MarkedText.read (trimmed text.toList) = MarkedText.read text := by
  simp only [MarkedText.read, trimmed, String.toList_ofList, trim_trim]

theorem trimmed_trimmed (text : String) :
    trimmed (trimmed text.toList).toList = trimmed text.toList := by
  simp only [trimmed, String.toList_ofList, trim_trim]

namespace Chart

theorem addNote_trimmed (chart : Chart) (placement : NotePlacement) (first : String)
    (second : Option String) (text : String) :
    chart.addNote placement first second (trimmed text.toList) =
      chart.addNote placement first second text := by
  simp only [addNote, Diagram.addNote, MarkedText.read_trimmed]

theorem addMessage_trimmed (chart : Chart) (source target : String) (kind : MessageKind)
    (text : String) :
    chart.addMessage source target kind (trimmed text.toList) =
      chart.addMessage source target kind text := by
  simp only [addMessage, Diagram.addMessage, MarkedText.read_trimmed]

theorem addBlockMarker_trimmed (chart : Chart) (marker : BlockMarker) (label : String) :
    chart.addBlockMarker marker (some (trimmed label.toList)) =
      chart.addBlockMarker marker (some label) := by
  simp only [addBlockMarker, Diagram.addBlockMarker, Option.getD_some, trimmed_trimmed]

end Chart

namespace Session

variable {session : Session}

/-- What a session does, apart from places and switches. -/
def draft (session : Session) : Draft :=
  { chart := session.chart, opened := session.openBlocks.map Prod.fst }

theorem deactivate_draft (session : Session) (actor : String) :
    ((session.deactivate actor).1.draft, (session.deactivate actor).2) =
      session.draft.deactivate actor := by
  unfold Session.deactivate Draft.deactivate
  change _ = match session.chart.deactivate? actor with
    | some chart => session.draft.withChart chart
    | none => (session.draft, some (.inactive actor))
  cases session.chart.deactivate? actor <;> rfl

theorem divideBlock_draft (session : Session) (kind : SectionKind) (label : String) :
    ((session.divideBlock kind label).1.draft, (session.divideBlock kind label).2) =
      session.draft.write (.divider kind label) := by
  have hhead : session.draft.opened.head? = session.openBlocks.head?.map Prod.fst :=
    List.head?_map
  rw [Draft.write, hhead, divideBlock]
  split <;> rfl

theorem closeBlock_draft (session : Session) :
    (session.closeBlock.1.draft, session.closeBlock.2) = session.draft.write .closing := by
  obtain ⟨chart, switches, openBlocks⟩ := session
  cases openBlocks <;> rfl

theorem addMessage_draft (session : Session) (source target : String) (kind : MessageKind)
    (edge : Option ActivationEdge) (text : String) :
    ((session.addMessage source target kind edge text).1.draft,
        (session.addMessage source target kind edge text).2) =
      session.draft.write (.message source target kind edge text) := by
  rcases edge with _ | _ | _
  · rfl
  · rfl
  · exact deactivate_draft _ source

theorem carryOut_draft (session : Session) (offset : Nat) (statement : Statement) :
    ((session.carryOut offset statement).1.draft, (session.carryOut offset statement).2) =
      session.draft.write statement.tidy := by
  cases statement with
  | declare | autonumber | title | accTitle | accDescription | activate => rfl
  | deactivate actor => exact session.deactivate_draft actor
  | note placement first second text =>
      rw [Statement.tidy, Draft.write, Chart.addNote_trimmed]
      rfl
  | opening kind label =>
      rw [Statement.tidy, Draft.write, Chart.addBlockMarker_trimmed]
      rfl
  | divider kind label =>
      rw [Statement.tidy, Draft.write, Chart.addBlockMarker_trimmed]
      exact session.divideBlock_draft kind label
  | closing => exact session.closeBlock_draft
  | message source target kind edge text =>
      have htext : session.addMessage source target kind edge (trimmed text.toList) =
          session.addMessage source target kind edge text := by
        unfold addMessage
        rw [Chart.addMessage_trimmed]
      rw [Statement.tidy, ← addMessage_draft, htext]
      rfl

theorem deactivate_switches (session : Session) (actor : String) :
    (session.deactivate actor).1.switches = session.switches := by
  unfold Session.deactivate
  split <;> rfl

theorem carryOut_switches (session : Session) (offset : Nat) (statement : Statement) :
    (session.carryOut offset statement).1.switches = session.switches := by
  cases statement with
  | deactivate actor => exact session.deactivate_switches actor
  | divider kind label =>
      simp only [carryOut, divideBlock]
      split <;> rfl
  | closing =>
      simp only [carryOut, closeBlock]
      split <;> rfl
  | message source target kind edge text =>
      rcases edge with _ | _ | _
      · rfl
      · rfl
      · exact deactivate_switches _ source
  | _ => rfl

theorem reach_of_no_switches (hswitches : session.switches = []) (offset : Nat) :
    session.reach offset = session := by
  obtain ⟨chart, switches, openBlocks⟩ := session
  subst hswitches
  rfl

theorem runSteps_draft (hswitches : session.switches = []) (items : List (Nat × Statement)) :
    ((runSteps step session items).1.draft, (runSteps step session items).2.map Prod.snd) =
        runSteps Draft.write session.draft (items.map fun item => item.2.tidy) ∧
      (runSteps step session items).1.switches = [] := by
  induction items generalizing session with
  | nil => exact ⟨rfl, hswitches⟩
  | cons item items ih =>
      have hwrite := session.carryOut_draft item.1 item.2
      have hleft := session.carryOut_switches item.1 item.2
      have hreach := reach_of_no_switches hswitches item.1
      rw [List.map_cons]
      simp only [runSteps, step, hreach]
      rw [← hwrite]
      cases hcarry : session.carryOut item.1 item.2 with
      | mk next fault =>
          rw [hcarry] at hleft
          cases fault with
          | none => exact ih (hleft.trans hswitches)
          | some fault => exact ⟨rfl, hleft.trans hswitches⟩

end Session

/-- Reading a printed diagram does to a chart what its statements say. -/
theorem Chart.readCode_printed (chart : Chart) {statements : List Statement} {code : String}
    (hprinted : PrintedDiagram statements code.toList) :
    ((chart.readCode code []).1, (chart.readCode code []).2.map ReadingError.fault) =
      chart.compose statements := by
  obtain ⟨stop, hending, hstatements⟩ := Script.read_printed hprinted
  have hswitches : (Session.mk chart [] []).switches = [] := rfl
  obtain ⟨hrun, hleft⟩ := Session.runSteps_draft hswitches (Script.read code.toList).statements
  rw [hstatements] at hrun
  cases hsteps : runSteps Session.step ⟨chart, [], []⟩ (Script.read code.toList).statements with
  | mk last fault =>
      rw [hsteps] at hrun hleft
      cases fault with
      | some fault =>
          have hwrite : runSteps Draft.write ⟨chart, []⟩ statements =
              (last.draft, some fault.2) := hrun.symm
          simp only [readCode, Session.run, compose, Session.reach_of_no_switches hswitches,
            hsteps, hwrite, Option.map_some]
          rfl
      | none =>
          have hwrite : runSteps Draft.write ⟨chart, []⟩ statements = (last.draft, none) :=
            hrun.symm
          simp only [readCode, Session.run, compose, Session.reach_of_no_switches hswitches,
            hsteps, hwrite, hending]
          rw [Session.finish, Session.reach_of_no_switches hleft]
          cases hblocks : last.openBlocks <;> simp [Draft.finish, Session.draft, hblocks]

def greeting : List Statement :=
  [.opening .loop "daily", .message "A" "B" .solidOpen (some .start) "hi", .closing]

def greetingCode : String :=
  "SEQUENCEDIAGRAM %% demo\n  Loop daily;A->>+B: hi#note\nend"

theorem greeting_printed : PrintedDiagram greeting greetingCode.toList := by
  have hnote : Remark ('#' :: "note".toList) := ⟨.inl ⟨_, rfl⟩, by simp⟩
  have hend : PrintedTail [.closing] _ :=
    .cons (.remark hnote .nil) (.closing rfl) .nil ⟨⟨.inl rfl, nofun⟩, nofun⟩
      (.done .nil (.inl rfl))
  have hhi : PrintedText "hi" ([] ++ [':'] ++ [' '] ++ "hi".toList) :=
    .marked .nil (by decide) ⟨rfl, by simp, by decide⟩
  have hmessage : Printed (.message "A" "B" .solidOpen (some .start) "hi") _ :=
    .message (.singleton rfl (by decide)) .nil .nil .nil (.singleton rfl (by decide)) (.inr hhi)
  have hmessages : PrintedTail [.message "A" "B" .solidOpen (some .start) "hi", .closing] _ :=
    .cons (.blank (.inr (.inr rfl)) .nil) hmessage .nil
      ⟨⟨.inr (.inr (.inr (.inl ⟨_, rfl⟩))), fun _ hlast => absurd hlast (by decide)⟩,
        fun _ hword => absurd (hword '-' (by decide)) (by decide)⟩ hend
  have hdaily : PrintedLabel "daily" ([' '] ++ "daily".toList) :=
    .spaced (by decide) (by decide) ⟨rfl, by simp, by decide⟩
  have hloop : Printed (.opening .loop "daily") ("Loop".toList ++ ([' '] ++ "daily".toList)) :=
    .opening rfl hdaily
  have hdemo : Remark ('%' :: '%' :: " demo".toList) := ⟨.inr ⟨_, rfl⟩, by simp⟩
  have hspaces : Gap [' ', ' '] := .blank (.inl rfl) (.blank (.inl rfl) .nil)
  have hall : PrintedTail greeting _ :=
    .cons (.remark hdemo hspaces) hloop .nil
      ⟨⟨.inr (.inr (.inl ⟨_, rfl⟩)), fun _ hlast => absurd hlast (by decide)⟩,
        fun _ hword => absurd (hword ' ' (by decide)) (by decide)⟩ hmessages
  have hheader : Spells Script.headerWord "SEQUENCEDIAGRAM".toList := by decide +kernel
  have hspaced : Spacing [' '] := by decide
  have hdiagram : PrintedDiagram greeting _ :=
    .headed .nil hheader hspaced ⟨⟨.inr (.inr (.inr (.inr ⟨_, rfl⟩))),
      fun hempty => absurd hempty (by decide)⟩, fun hempty => absurd hempty (by decide)⟩ hall
  refine Eq.subst ?_ hdiagram
  decide +kernel

theorem Chart.readCode_greeting : PrintedDiagram greeting greetingCode.toList ∧
    ((Chart.empty.readCode greetingCode []).1,
        (Chart.empty.readCode greetingCode []).2.map ReadingError.fault) =
      Chart.empty.compose greeting :=
  ⟨greeting_printed, Chart.readCode_printed Chart.empty greeting_printed⟩

end SequenceChart
