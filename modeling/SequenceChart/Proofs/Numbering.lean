import SequenceChart.Proofs.Operations
import SequenceChart.Proofs.Registry

/-!
# Numbers of messages

A new message takes its number from the count that the diagram keeps, while messages that are there
already are counted afresh when numbering is turned on. Both count the same, so a number is the
place of its message among the messages. Nothing but the numbers depends on whether messages are
numbered, and therefore it does not matter when numbering is turned on.
-/

namespace SequenceChart

def Event.unnumbered : Event → Event
  | .message sent => .message { sent with sequenceNumber := none }
  | event => event

namespace Diagram

theorem numberMessages_unnumbered (count : UInt32) (events : List Event) :
    numberMessages count (events.map Event.unnumbered) = numberMessages count events := by
  induction events generalizing count with
  | nil => rfl
  | cons event rest ih => cases event <;> simp [numberMessages, Event.unnumbered, ih]

theorem unnumbered_numberMessages (count : UInt32) (events : List Event) :
    (numberMessages count events).map Event.unnumbered = events.map Event.unnumbered :=
  numberMessages_map Event.unnumbered count events fun _ _ => rfl

theorem numberMessages_numberMessages (count other : UInt32) (events : List Event) :
    numberMessages count (numberMessages other events) = numberMessages count events := by
  calc
    numberMessages count (numberMessages other events) =
        numberMessages count ((numberMessages other events).map Event.unnumbered) :=
      (numberMessages_unnumbered ..).symm
    _ = numberMessages count (events.map Event.unnumbered) := by rw [unnumbered_numberMessages]
    _ = numberMessages count events := numberMessages_unnumbered ..

theorem numberMessages_append (count : UInt32) (left right : List Event) :
    numberMessages count (left ++ right) = numberMessages count left ++
      numberMessages (count + .ofNat (left.filterMap Event.message?).length) right := by
  induction left generalizing count with
  | nil => simp [numberMessages]
  | cons event rest ih =>
      cases event with
      | message sent =>
          have hcount : count + 1 + .ofNat (rest.filterMap Event.message?).length =
              count + .ofNat ((rest.filterMap Event.message?).length + 1) := by
            rw [UInt32.ofNat_add, UInt32.add_assoc, UInt32.add_comm 1]
            rfl
          simp [numberMessages, Event.message?, ih, hcount]
      | note | activation | block => exact congrArg (_ :: ·) (ih count)

theorem length_messages_numberMessages (count : UInt32) (events : List Event) :
    ((numberMessages count events).filterMap Event.message?).length =
      (events.filterMap Event.message?).length := by
  induction events generalizing count with
  | nil => rfl
  | cons event rest ih =>
      cases event with
      | message sent => exact congrArg Nat.succ (ih (count + 1))
      | note | activation | block => exact ih count

theorem sequenceNumber_numberMessages {count : UInt32} {events : List Event} {index : Nat}
    {message : Message}
    (hmessage : ((numberMessages count events).filterMap Event.message?)[index]? = some message) :
    message.sequenceNumber = some (count + .ofNat (index + 1)) := by
  induction events generalizing count index with
  | nil => cases hmessage
  | cons event rest ih =>
      cases event with
      | message sent =>
          cases index with
          | zero =>
              obtain rfl := Option.some.inj hmessage
              rfl
          | succ index =>
              rw [ih hmessage, UInt32.ofNat_add (index + 1) 1, UInt32.add_assoc, UInt32.add_comm 1]
              rfl
      | note | activation | block => exact ih hmessage

theorem sequenceNumber_unnumbered {events : List Event} {message : Message}
    (hmem : message ∈ (events.map Event.unnumbered).filterMap Event.message?) :
    message.sequenceNumber = none := by
  obtain ⟨event, hevent, hmessage⟩ := List.mem_filterMap.mp hmem
  obtain ⟨original, -, rfl⟩ := List.mem_map.mp hevent
  cases original with
  | message sent =>
      obtain rfl := Option.some.inj hmessage
      rfl
  | note | activation | block => cases hmessage

/-- The count and the numbers tell the places of the messages. -/
structure Numbered (diagram : Diagram) : Prop where
  count : diagram.messageCount = .ofNat diagram.messages.length
  numbers : diagram.events =
    if diagram.autonumber then numberMessages 0 diagram.events
    else diagram.events.map Event.unnumbered

theorem Numbered.empty : empty.Numbered :=
  ⟨rfl, rfl⟩

variable {diagram before after : Diagram}

theorem Numbered.of_events_eq (hbefore : before.Numbered) (hevents : after.events = before.events)
    (hon : after.autonumber = before.autonumber)
    (hcount : after.messageCount = before.messageCount) : after.Numbered := by
  refine ⟨?_, ?_⟩
  · rw [messages, hcount, hevents]
    exact hbefore.count
  · rw [hevents, hon]
    exact hbefore.numbers

theorem Numbered.addEvent (hnumbered : diagram.Numbered) {event : Event}
    (hmessage : event.message? = none) : (diagram.addEvent event).Numbered := by
  have hevent : ∀ count, numberMessages count [event] = [event] ∧ event.unnumbered = event := by
    intro count
    cases event <;> simp_all [Event.message?, numberMessages, Event.unnumbered]
  refine ⟨?_, ?_⟩
  · simp only [messages, events_addEvent, List.filterMap_append]
    rw [List.filterMap_cons_none hmessage, List.filterMap_nil, List.append_nil]
    exact hnumbered.count
  · have hnumbers := hnumbered.numbers
    rw [events_addEvent, numberMessages_append, (hevent _).1, List.map_append, List.map_singleton,
      (hevent 0).2]
    change diagram.events ++ [event] = if diagram.autonumber then _ else _
    split at hnumbers
    · rw [if_pos ‹_›, ← hnumbers]
    · rw [if_neg ‹_›, ← hnumbers]

theorem autonumber_addMessage (diagram : Diagram) (wrap : Bool) (source target : String)
    (kind : MessageKind) (text : String) :
    (diagram.addMessage wrap source target kind text).autonumber = diagram.autonumber := by
  simp [addMessage, mention, addActor, addEvent]

theorem messageCount_addMessage (diagram : Diagram) (wrap : Bool) (source target : String)
    (kind : MessageKind) (text : String) :
    (diagram.addMessage wrap source target kind text).messageCount = diagram.messageCount + 1 := by
  simp [addMessage, mention, addActor, addEvent]

theorem Numbered.addMessage (hnumbered : diagram.Numbered) (wrap : Bool) (source target : String)
    (kind : MessageKind) (text : String) :
    (diagram.addMessage wrap source target kind text).Numbered := by
  have hcount := hnumbered.count
  refine ⟨?_, ?_⟩
  · rw [messageCount_addMessage, messages, events_addMessage, List.filterMap_append,
      List.length_append, UInt32.ofNat_add, hcount]
    rfl
  · have hnumbers := hnumbered.numbers
    rw [events_addMessage, autonumber_addMessage]
    split at hnumbers
    · rename_i hon
      rw [if_pos hon, if_pos hon, numberMessages_append, ← hnumbers, hcount, UInt32.zero_add]
      rfl
    · rename_i hoff
      rw [if_neg hoff, if_neg hoff, List.map_append, ← hnumbers]
      rfl

theorem Numbered.enableAutonumber (hnumbered : diagram.Numbered) :
    diagram.enableAutonumber.Numbered := by
  unfold Diagram.enableAutonumber
  split
  · exact hnumbered
  · refine ⟨?_, ?_⟩
    · rw [messages, length_messages_numberMessages]
      exact hnumbered.count
    · exact (numberMessages_numberMessages 0 0 diagram.events).symm

theorem Numbered.deactivate? {id : String} (hbefore : before.Numbered)
    (hdeactivate : before.deactivate? id = some after) : after.Numbered := by
  unfold Diagram.deactivate? at hdeactivate
  split at hdeactivate
  · cases hdeactivate
  · rw [← Option.some.inj hdeactivate]
    have hchanged : (before.changeActor id fun actor =>
        { actor with activationDepth := actor.activationDepth - 1 }).Numbered :=
      hbefore.of_events_eq rfl rfl rfl
    exact hchanged.addEvent rfl

theorem Numbered.mention (hnumbered : diagram.Numbered) (wrap : Bool) (id : String) :
    (diagram.mention wrap id).Numbered :=
  hnumbered.of_events_eq (events_register ..) (autonumber_register ..) (messageCount_register ..)

/-- The numbers of a diagram depend on its events and on whether there are numbers. -/
theorem Numbered.events_congr {first second : Diagram} (hfirst : first.Numbered)
    (hsecond : second.Numbered) (hon : first.autonumber = second.autonumber)
    (hevents : first.events.map Event.unnumbered = second.events.map Event.unnumbered) :
    first.events = second.events := by
  rw [hfirst.numbers, hsecond.numbers, hon, hevents, ← numberMessages_unnumbered 0 first.events,
    hevents, numberMessages_unnumbered]

end Diagram

namespace Chart

theorem numbered_keptByEdits : KeptByEdits fun chart => chart.diagram.Numbered := by
  intro chart edit hnumbered
  cases edit with
  | addActor id label =>
      exact hnumbered.of_events_eq (Diagram.events_register ..) (Diagram.autonumber_register ..)
        (Diagram.messageCount_register ..)
  | declareActor id label role =>
      exact hnumbered.of_events_eq (Diagram.events_register ..) (Diagram.autonumber_register ..)
        (Diagram.messageCount_register ..)
  | addMessage source target kind text => exact hnumbered.addMessage ..
  | activate id =>
      have hmentioned := hnumbered.mention chart.wrapEnabled id
      have hdeeper : ((chart.diagram.mention chart.wrapEnabled id).changeActor id fun actor =>
          { actor with activationDepth := actor.activationDepth + 1 }).Numbered :=
        hmentioned.of_events_eq rfl rfl rfl
      exact hdeeper.addEvent rfl
  | deactivate id =>
      rw [Chart.edit, deactivate?]
      cases hdeactivate : chart.diagram.deactivate? id with
      | none => exact hnumbered
      | some diagram => exact hnumbered.deactivate? hdeactivate
  | addNote placement first second text =>
      exact ((hnumbered.mention _ first).mention _ (second.getD first)).addEvent rfl
  | addBlockMarker marker label => exact hnumbered.addEvent rfl
  | enableAutonumber => exact hnumbered.enableAutonumber
  | setTitle | setAccTitle | setAccDescription => exact hnumbered.of_events_eq rfl rfl rfl
  | setWrap | configure => exact hnumbered

theorem Built.numbered {chart : Chart} (hbuilt : chart.Built) : chart.diagram.Numbered :=
  hbuilt.invariant numbered_keptByEdits fun _ => .empty

/-- Numbering is never turned off. -/
theorem autonumber_keptByEdits : KeptByEdits fun chart => chart.diagram.autonumber = true := by
  intro chart edit hon
  cases edit with
  | addActor | declareActor => exact (Diagram.autonumber_register ..).trans hon
  | addMessage source target kind text => exact (Diagram.autonumber_addMessage ..).trans hon
  | activate => exact (Diagram.autonumber_register ..).trans hon
  | deactivate id =>
      rw [Chart.edit, deactivate?, Diagram.deactivate?]
      split <;> exact hon
  | addNote =>
      exact ((Diagram.autonumber_register ..).trans (Diagram.autonumber_register ..)).trans hon
  | enableAutonumber =>
      rw [Chart.edit, enableAutonumber, Diagram.enableAutonumber, if_pos hon]
      exact hon
  | addBlockMarker | setTitle | setAccTitle | setAccDescription | setWrap | configure => exact hon

end Chart

/-! ### Without the numbers

Taking the numbers off goes through every operation: the same operation on a chart without numbers
ends with the same chart without numbers, and with the same fault. So two ways to a chart that
differ only in when numbering is turned on meet there. -/

def Diagram.unnumbered (diagram : Diagram) : Diagram :=
  { diagram with autonumber := false, events := diagram.events.map Event.unnumbered }

def Chart.unnumbered (chart : Chart) : Chart :=
  { chart with diagram := chart.diagram.unnumbered }

def Session.unnumbered (session : Session) : Session :=
  { session with chart := session.chart.unnumbered }

namespace Diagram

theorem unnumbered_register (diagram : Diagram) (wrap : Bool) (id : String) (label : Option String)
    (role : Option ActorRole) :
    (diagram.register wrap id label role).unnumbered =
      diagram.unnumbered.register wrap id label role := by
  have hsame : diagram.unnumbered.actor? id = diagram.actor? id := rfl
  unfold register
  rw [hsame]
  cases diagram.actor? id <;> rfl

theorem unnumbered_addEvent (diagram : Diagram) (event : Event) :
    (diagram.addEvent event).unnumbered = diagram.unnumbered.addEvent event.unnumbered := by
  simp [unnumbered, addEvent]

theorem unnumbered_mention (diagram : Diagram) (wrap : Bool) (id : String) :
    (diagram.mention wrap id).unnumbered = diagram.unnumbered.mention wrap id :=
  unnumbered_register ..

theorem unnumbered_addMessage (diagram : Diagram) (wrap : Bool) (source target : String)
    (kind : MessageKind) (text : String) :
    (diagram.addMessage wrap source target kind text).unnumbered =
      diagram.unnumbered.addMessage wrap source target kind text := by
  unfold addMessage
  rw [unnumbered_addEvent, ← unnumbered_mention, ← unnumbered_mention]
  rfl

theorem unnumbered_activate (diagram : Diagram) (wrap : Bool) (id : String) :
    (diagram.activate wrap id).unnumbered = diagram.unnumbered.activate wrap id := by
  unfold activate
  rw [unnumbered_addEvent, ← unnumbered_mention]
  rfl

theorem unnumbered_deactivate? (diagram : Diagram) (id : String) :
    diagram.unnumbered.deactivate? id = (diagram.deactivate? id).map unnumbered := by
  have hdepth : diagram.unnumbered.activationDepth id = diagram.activationDepth id := rfl
  unfold deactivate?
  rw [hdepth]
  split
  · rfl
  · rw [Option.map_some, unnumbered_addEvent]
    rfl

theorem unnumbered_addNote (diagram : Diagram) (wrap : Bool) (placement : NotePlacement)
    (first : String) (second : Option String) (text : String) :
    (diagram.addNote wrap placement first second text).unnumbered =
      diagram.unnumbered.addNote wrap placement first second text := by
  unfold addNote
  rw [unnumbered_addEvent, unnumbered_mention, unnumbered_mention]
  rfl

theorem unnumbered_enableAutonumber (diagram : Diagram) :
    diagram.enableAutonumber.unnumbered = diagram.unnumbered := by
  unfold enableAutonumber
  split
  · rfl
  · simp [unnumbered, unnumbered_numberMessages]

end Diagram

namespace Chart

variable {chart twin : Chart}

theorem unnumbered_enableAutonumber (chart : Chart) :
    chart.enableAutonumber.unnumbered = chart.unnumbered :=
  congrArg (Chart.mk · chart.settings) chart.diagram.unnumbered_enableAutonumber

theorem unnumbered_deactivate? (chart : Chart) (id : String) :
    chart.unnumbered.deactivate? id = (chart.deactivate? id).map unnumbered := by
  unfold deactivate?
  change (chart.diagram.unnumbered.deactivate? id).map _ = _
  rw [Diagram.unnumbered_deactivate?, Option.map_map, Option.map_map]
  rfl

theorem unnumbered_congr (operation : Chart → Chart)
    (hcommutes : ∀ chart, (operation chart).unnumbered = operation chart.unnumbered)
    (hsame : chart.unnumbered = twin.unnumbered) :
    (operation chart).unnumbered = (operation twin).unnumbered := by
  rw [hcommutes chart, hsame, ← hcommutes twin]

/-- Numbers play no part in edits. -/
theorem unnumbered_edit (hsame : chart.unnumbered = twin.unnumbered) (edit : Edit) :
    (chart.edit edit).unnumbered = (twin.edit edit).unnumbered := by
  cases edit with
  | addActor id label =>
      refine unnumbered_congr ((·.addActor id label)) (fun chart => ?_) hsame
      exact congrArg (Chart.mk · chart.settings) (chart.diagram.unnumbered_register ..)
  | declareActor id label role =>
      refine unnumbered_congr ((·.declareActor id label role)) (fun chart => ?_) hsame
      exact congrArg (Chart.mk · chart.settings) (chart.diagram.unnumbered_register ..)
  | addMessage source target kind text =>
      refine unnumbered_congr ((·.addMessage source target kind text))
        (fun chart => ?_) hsame
      exact congrArg (Chart.mk · chart.settings) (chart.diagram.unnumbered_addMessage ..)
  | activate id =>
      refine unnumbered_congr ((·.activate id)) (fun chart => ?_) hsame
      exact congrArg (Chart.mk · chart.settings) (chart.diagram.unnumbered_activate ..)
  | deactivate id =>
      refine unnumbered_congr (fun chart => (chart.deactivate? id).getD chart)
        (fun chart => ?_) hsame
      rw [unnumbered_deactivate?]
      cases chart.deactivate? id <;> rfl
  | addNote placement first second text =>
      refine unnumbered_congr ((·.addNote placement first second text))
        (fun chart => ?_) hsame
      exact congrArg (Chart.mk · chart.settings) (chart.diagram.unnumbered_addNote ..)
  | addBlockMarker marker label =>
      refine unnumbered_congr ((·.addBlockMarker marker label)) (fun chart => ?_) hsame
      exact congrArg (Chart.mk · chart.settings) (chart.diagram.unnumbered_addEvent _)
  | enableAutonumber =>
      rw [Chart.edit, Chart.edit, unnumbered_enableAutonumber, hsame, unnumbered_enableAutonumber]
  | setTitle title => exact unnumbered_congr ((·.setTitle title)) (fun _ => rfl) hsame
  | setAccTitle title =>
      exact unnumbered_congr ((·.setAccTitle title)) (fun _ => rfl) hsame
  | setAccDescription description =>
      exact unnumbered_congr ((·.setAccDescription description)) (fun _ => rfl) hsame
  | setWrap wrap => exact unnumbered_congr ((·.setWrap wrap)) (fun _ => rfl) hsame
  | configure settings =>
      exact unnumbered_congr (fun chart => { chart with settings }) (fun _ => rfl)
        hsame

end Chart

namespace Session

variable {chart twin : Chart}

theorem unnumbered_passSwitches (hsame : chart.unnumbered = twin.unnumbered) (offset : Nat)
    (switches : List WrapSwitch) :
    (passSwitches offset chart switches).1.unnumbered =
        (passSwitches offset twin switches).1.unnumbered ∧
      (passSwitches offset chart switches).2 = (passSwitches offset twin switches).2 := by
  induction switches generalizing chart twin with
  | nil => exact ⟨hsame, rfl⟩
  | cons switch rest ih =>
      rw [passSwitches, passSwitches]
      split
      · exact ih (Chart.unnumbered_edit hsame (.setWrap switch.enabled))
      · exact ⟨hsame, rfl⟩

variable {session other : Session}

theorem chart_unnumbered_eq (hsame : session.unnumbered = other.unnumbered) :
    session.chart.unnumbered = other.chart.unnumbered ∧ session.switches = other.switches ∧
      session.openBlocks = other.openBlocks := by
  simpa only [unnumbered, Session.mk.injEq] using hsame

theorem unnumbered_reach (hsame : session.unnumbered = other.unnumbered) (offset : Nat) :
    (session.reach offset).unnumbered = (other.reach offset).unnumbered := by
  obtain ⟨hchart, hswitches, hblocks⟩ := chart_unnumbered_eq hsame
  obtain ⟨hreached, hleft⟩ := unnumbered_passSwitches hchart offset session.switches
  simp only [reach, unnumbered, hblocks, ← hswitches, hreached, hleft]

/-- Both sessions go on alike, apart from numbers. -/
def Agree {Fault : Type} (left right : Session × Option Fault) : Prop :=
  left.1.unnumbered = right.1.unnumbered ∧ left.2 = right.2

theorem agree_withChart (hsame : session.unnumbered = other.unnumbered)
    (hchart : chart.unnumbered = twin.unnumbered) :
    Agree (session.withChart chart) (other.withChart twin) := by
  obtain ⟨-, hswitches, hblocks⟩ := chart_unnumbered_eq hsame
  refine ⟨?_, rfl⟩
  simp only [withChart, unnumbered, hswitches, hblocks, hchart]

theorem agree_deactivate (hsame : session.unnumbered = other.unnumbered) (actor : String) :
    Agree (session.deactivate actor) (other.deactivate actor) := by
  have hchart := (chart_unnumbered_eq hsame).1
  have hended : (session.chart.deactivate? actor).map Chart.unnumbered =
      (other.chart.deactivate? actor).map Chart.unnumbered := by
    rw [← Chart.unnumbered_deactivate?, hchart, Chart.unnumbered_deactivate?]
  unfold deactivate
  cases hleft : session.chart.deactivate? actor with
  | none =>
      rw [hleft, eq_comm, Option.map_none, Option.map_eq_none_iff] at hended
      rw [hended]
      exact ⟨hsame, rfl⟩
  | some chart =>
      rw [hleft, eq_comm, Option.map_some, Option.map_eq_some_iff] at hended
      obtain ⟨twin, hright, htwin⟩ := hended
      rw [hright]
      exact agree_withChart hsame htwin.symm

theorem agree_addMessage (hsame : session.unnumbered = other.unnumbered) (source target : String)
    (kind : MessageKind) (edge : Option ActivationEdge) (text : String) :
    Agree (session.addMessage source target kind edge text)
      (other.addMessage source target kind edge text) := by
  have hchart := (chart_unnumbered_eq hsame).1
  have hsent : (session.chart.addMessage source target kind text).unnumbered =
      (other.chart.addMessage source target kind text).unnumbered :=
    Chart.unnumbered_edit hchart (.addMessage source target kind text)
  unfold addMessage
  split
  · exact agree_withChart hsame hsent
  · exact agree_withChart hsame (Chart.unnumbered_edit hsent (.activate target))
  · exact agree_deactivate (agree_withChart hsame hsent).1 source

theorem agree_carryOut (hsame : session.unnumbered = other.unnumbered) (offset : Nat)
    (statement : Statement) :
    Agree (session.carryOut offset statement) (other.carryOut offset statement) := by
  obtain ⟨hchart, hswitches, hblocks⟩ := chart_unnumbered_eq hsame
  have hedit (edit : Edit) :
      Agree (session.withChart (session.chart.edit edit))
        (other.withChart (other.chart.edit edit)) :=
    agree_withChart hsame (Chart.unnumbered_edit hchart edit)
  cases statement with
  | declare role id label => exact hedit (.declareActor id label role)
  | autonumber => exact hedit .enableAutonumber
  | title text => exact hedit (.setTitle text)
  | accTitle text => exact hedit (.setAccTitle text)
  | accDescription text => exact hedit (.setAccDescription text)
  | activate actor => exact hedit (.activate actor)
  | deactivate actor => exact agree_deactivate hsame actor
  | note placement first second text => exact hedit (.addNote placement first second text)
  | opening kind label =>
      have hopened := Chart.unnumbered_edit hchart (.addBlockMarker (.opening kind) (some label))
      refine ⟨?_, rfl⟩
      simp only [carryOut, openBlock, unnumbered, hswitches, hblocks, Session.mk.injEq, and_true]
      exact hopened
  | divider kind label =>
      rw [carryOut, carryOut, divideBlock, divideBlock, hblocks]
      split
      · exact hedit (.addBlockMarker (.divider kind) (some label))
      · exact ⟨hsame, rfl⟩
  | closing =>
      rw [carryOut, carryOut, closeBlock, closeBlock, hblocks]
      split
      · exact ⟨hsame, rfl⟩
      · rename_i kind _ _ _
        have hclosed := Chart.unnumbered_edit hchart (.addBlockMarker (.closing kind) none)
        refine ⟨?_, rfl⟩
        simp only [unnumbered, hswitches, Session.mk.injEq, and_true]
        exact hclosed
  | message source target kind edge text =>
      exact agree_addMessage hsame source target kind edge text

theorem agree_step (hsame : session.unnumbered = other.unnumbered) (item : Nat × Statement) :
    Agree (session.step item) (other.step item) := by
  obtain ⟨hnext, hfault⟩ := agree_carryOut (unnumbered_reach hsame item.1) item.1 item.2
  exact ⟨hnext, congrArg (Option.map fun fault => (item.1, fault)) hfault⟩

theorem agree_finish (hsame : session.unnumbered = other.unnumbered) (ending : Ending) :
    Agree (session.finish ending) (other.finish ending) := by
  cases ending with
  | complete offset =>
      refine ⟨unnumbered_reach hsame offset, ?_⟩
      simp only [finish, (chart_unnumbered_eq hsame).2.2]
  | unreadable offset complaint => exact ⟨unnumbered_reach hsame offset, rfl⟩
  | cluttered offset complaint => exact ⟨hsame, rfl⟩

theorem agree_run (hsame : session.unnumbered = other.unnumbered) (script : Script) :
    Agree (session.run script) (other.run script) := by
  obtain ⟨hlast, hfault⟩ := runSteps_congr Session.unnumbered
    (fun hstate item => agree_step hstate item) (unnumbered_reach hsame script.header)
    script.statements
  rw [run, run]
  rcases hrun : runSteps step (session.reach script.header) script.statements with ⟨last, fault⟩
  rcases htwin : runSteps step (other.reach script.header) script.statements with ⟨end', reported⟩
  rw [hrun, htwin] at hlast hfault
  obtain rfl : fault = reported := hfault
  cases fault with
  | none => exact agree_finish hlast script.ending
  | some fault => exact ⟨hlast, rfl⟩

end Session

/-- The operation forgets what is in the chart. -/
def Operation.empties : Operation → Bool
  | .clear | .parse _ _ => true
  | .edit _ | .readCode _ _ => false

def Operation.enables : Operation → Bool
  | .edit .enableAutonumber => true
  | _ => false

namespace Chart

variable {chart twin : Chart}

theorem unnumbered_readCode (hsame : chart.unnumbered = twin.unnumbered) (code : String)
    (switches : List WrapSwitch) :
    (chart.readCode code switches).1.unnumbered = (twin.readCode code switches).1.unnumbered := by
  have hsessions : (Session.mk chart switches []).unnumbered =
      (Session.mk twin switches []).unnumbered :=
    congrArg (Session.mk · switches []) hsame
  exact (Session.chart_unnumbered_eq (Session.agree_run hsessions (Script.read code.toList)).1).1

theorem unnumbered_operate (hsame : chart.unnumbered = twin.unnumbered) {operation : Operation}
    (hkeeps : operation.empties = false) :
    (chart.operate operation).unnumbered = (twin.operate operation).unnumbered := by
  cases operation with
  | edit edit => exact unnumbered_edit hsame edit
  | readCode code switches => exact unnumbered_readCode hsame code switches
  | clear | parse => cases hkeeps

theorem unnumbered_of_enables {operation : Operation} (henables : operation.enables = true)
    (chart : Chart) : (chart.operate operation).unnumbered = chart.unnumbered := by
  unfold Operation.enables at henables
  split at henables
  · exact unnumbered_enableAutonumber chart
  · cases henables

/-- Whether numbering is turned on, where and how often, changes nothing but the numbers. -/
theorem unnumbered_operateAll (hsame : chart.unnumbered = twin.unnumbered)
    {operations : List Operation} (hkeep : ∀ operation ∈ operations, operation.empties = false) :
    (chart.operateAll operations).unnumbered =
      (twin.operateAll (operations.filter (!·.enables))).unnumbered := by
  induction operations generalizing chart twin with
  | nil => exact hsame
  | cons operation rest ih =>
      rw [List.forall_mem_cons] at hkeep
      rw [List.filter_cons]
      cases henables : operation.enables with
      | true => exact ih ((unnumbered_of_enables henables chart).trans hsame) hkeep.2
      | false => exact ih (unnumbered_operate hsame hkeep.1) hkeep.2

theorem autonumber_operate (hon : chart.diagram.autonumber = true) {operation : Operation}
    (hkeeps : operation.empties = false) : (chart.operate operation).diagram.autonumber = true := by
  cases operation with
  | edit edit => exact autonumber_keptByEdits chart edit hon
  | readCode code switches => exact readCode_preserves autonumber_keptByEdits hon code switches
  | clear | parse => cases hkeeps

theorem autonumber_operateAll (hon : chart.diagram.autonumber = true) {operations : List Operation}
    (hkeep : ∀ operation ∈ operations, operation.empties = false) :
    (chart.operateAll operations).diagram.autonumber = true := by
  induction operations generalizing chart with
  | nil => exact hon
  | cons operation rest ih =>
      rw [List.forall_mem_cons] at hkeep
      exact ih (autonumber_operate hon hkeep.1) hkeep.2

theorem autonumber_of_enables {operation : Operation} (henables : operation.enables = true)
    (chart : Chart) : (chart.operate operation).diagram.autonumber = true := by
  unfold Operation.enables at henables
  split at henables
  · change chart.diagram.enableAutonumber.autonumber = true
    unfold Diagram.enableAutonumber
    split
    · assumption
    · rfl
  · cases henables

theorem autonumber_of_mem {operations : List Operation}
    (hkeep : ∀ operation ∈ operations, operation.empties = false)
    (henabled : ∃ operation ∈ operations, operation.enables = true) (chart : Chart) :
    (chart.operateAll operations).diagram.autonumber = true := by
  obtain ⟨operation, hmem, henables⟩ := henabled
  obtain ⟨before, after, rfl⟩ := List.append_of_mem hmem
  have hafter : ∀ later ∈ after, later.empties = false := by
    intro later hlater
    exact hkeep later (List.mem_append_right _ (List.mem_cons_of_mem _ hlater))
  rw [operateAll, List.foldl_append, List.foldl_cons]
  exact autonumber_operateAll (autonumber_of_enables henables _) hafter

/-- **Numbers are places.** In every chart that is built the count is the number of messages and, if
messages are numbered, each carries its place among them. Among operations that keep the chart, one
that turns numbering on leaves it on; where else it is turned on makes no difference to the
events. -/
theorem Built.numbers_agree (hbuilt : chart.Built) :
    (chart.diagram.messages.length < UInt32.size →
      chart.diagram.messageCount.toNat = chart.diagram.messages.length ∧
        ∀ (index : Nat) (message : Message), chart.diagram.messages[index]? = some message →
          message.sequenceNumber.map UInt32.toNat =
            if chart.diagram.autonumber then some (index + 1) else none) ∧
      (∀ operations : List Operation, (∀ operation ∈ operations, operation.empties = false) →
        (∃ operation ∈ operations, operation.enables = true) →
          (chart.operateAll operations).diagram.autonumber = true) ∧
      ∀ operations others : List Operation,
        (∀ operation ∈ operations, operation.empties = false) →
        (∀ operation ∈ others, operation.empties = false) →
        operations.filter (!·.enables) = others.filter (!·.enables) →
        (chart.operateAll operations).diagram.autonumber = true →
        (chart.operateAll others).diagram.autonumber = true →
          (chart.operateAll operations).diagram.events =
            (chart.operateAll others).diagram.events := by
  have hcount := hbuilt.numbered.count
  have hnumbers := hbuilt.numbered.numbers
  refine ⟨?_, ?_, ?_⟩
  · intro hmessages
    have hplace {place : Nat} (hle : place ≤ chart.diagram.messages.length) :
        (UInt32.ofNat place).toNat = place :=
      UInt32.toNat_ofNat_of_lt' (Nat.lt_of_le_of_lt hle hmessages)
    refine ⟨?_, ?_⟩
    · rw [hcount, hplace (Nat.le_refl _)]
    · intro index message hmessage
      have hindex : index + 1 ≤ chart.diagram.messages.length :=
        (List.getElem?_eq_some_iff.mp hmessage).1
      rw [Diagram.messages, hnumbers] at hmessage
      split at hmessage
      · rename_i hon
        rw [Diagram.sequenceNumber_numberMessages hmessage, if_pos hon, UInt32.zero_add,
          Option.map_some, hplace hindex]
      · rename_i hoff
        rw [if_neg hoff, Diagram.sequenceNumber_unnumbered (List.mem_of_getElem? hmessage)]
        rfl
  · intro operations hkeep henabled
    exact autonumber_of_mem hkeep henabled chart
  · intro operations others hkeep hkeepOthers hfilter hon honOther
    have hsame :
        (chart.operateAll operations).unnumbered = (chart.operateAll others).unnumbered := by
      rw [unnumbered_operateAll rfl hkeep, unnumbered_operateAll rfl hkeepOthers, hfilter]
    exact (hbuilt.operateAll operations).numbered.events_congr (hbuilt.operateAll others).numbered
      (hon.trans honOther.symm) (congrArg (·.diagram.events) hsame)

/-- Messages of edits and of code, numbered from the first on. -/
def numberedFirst : List Operation :=
  [.edit .enableAutonumber, .edit (.addMessage "A" "B" .solid "one"),
    .readCode "sequenceDiagram\nB->>A: two" []]

/-- The same messages, numbered in the end and again. -/
def numberedLast : List Operation :=
  [.edit (.addMessage "A" "B" .solid "one"), .readCode "sequenceDiagram\nB->>A: two" [],
    .edit .enableAutonumber, .edit .enableAutonumber]

theorem numberedLast_agree : (empty.operateAll numberedLast).Built ∧
    (empty.operateAll numberedLast).diagram.messages.length < UInt32.size ∧
    (empty.operateAll numberedLast).diagram.messageCount.toNat =
      (empty.operateAll numberedLast).diagram.messages.length ∧
    (empty.operateAll numberedFirst).diagram.events =
      (empty.operateAll numberedLast).diagram.events := by
  have hempty : empty.Built := .new .standard
  have hbuilt := hempty.operateAll numberedLast
  have hmessages : (empty.operateAll numberedLast).diagram.messages.length < UInt32.size := by
    decide +kernel
  obtain ⟨-, henabled, hsame⟩ := Built.numbers_agree hempty
  have hkeepFirst : ∀ operation ∈ numberedFirst, operation.empties = false := by
    simp [numberedFirst, Operation.empties]
  have hkeepLast : ∀ operation ∈ numberedLast, operation.empties = false := by
    simp [numberedLast, Operation.empties]
  refine ⟨hbuilt, hmessages, ((Built.numbers_agree hbuilt).1 hmessages).1,
    hsame numberedFirst numberedLast hkeepFirst hkeepLast rfl (henabled _ hkeepFirst ?_)
      (henabled _ hkeepLast ?_)⟩ <;>
    exact ⟨.edit .enableAutonumber, by simp [numberedFirst, numberedLast], rfl⟩

end Chart

end SequenceChart
