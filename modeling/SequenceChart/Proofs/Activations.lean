import Mathlib.Data.List.Nodup
import SequenceChart.Proofs.Operations
import SequenceChart.Proofs.Registry

/-!
# Balanced activations

The depth that a diagram keeps for an actor is the number of starts among the events less the number
of ends. An end is added only where a start is open, so at no time an actor has ended more
activations than it has started.
-/

namespace SequenceChart

/-- How often activations of the actor start, or end, in the events. -/
def edgeCount (edge : ActivationEdge) (id : String) (events : List Event) : Nat :=
  events.count (.activation edge id)

theorem edgeCount_append (edge : ActivationEdge) (id : String) (left right : List Event) :
    edgeCount edge id (left ++ right) = edgeCount edge id left + edgeCount edge id right :=
  List.count_append

theorem edgeCount_append_same (edge : ActivationEdge) (id actor : String) (events : List Event) :
    edgeCount edge id (events ++ [.activation edge actor]) =
      edgeCount edge id events + if actor = id then 1 else 0 := by
  simp only [edgeCount, List.count_append, List.count_singleton, beq_iff_eq,
    Event.activation.injEq, true_and]

theorem edgeCount_append_other {edge added : ActivationEdge} (hne : added ≠ edge)
    (id actor : String) (events : List Event) :
    edgeCount edge id (events ++ [.activation added actor]) = edgeCount edge id events := by
  simp only [edgeCount, List.count_append, List.count_singleton, beq_iff_eq,
    Event.activation.injEq, hne, false_and, if_false, Nat.add_zero]

theorem edgeCount_le_length (edge : ActivationEdge) (id : String) (events : List Event) :
    edgeCount edge id events ≤ events.length :=
  List.count_le_length

/-- Events that start and end no activation. -/
def NoEdge (events : List Event) : Prop :=
  ∀ edge id, edgeCount edge id events = 0

/-- In every beginning of the events, no actor has more ends than starts. -/
def EndsFollowStarts (events : List Event) : Prop :=
  ∀ before, before <+: events → ∀ id, edgeCount .stop id before ≤ edgeCount .start id before

theorem EndsFollowStarts.nil : EndsFollowStarts [] := by
  intro before hbefore id
  rw [List.prefix_nil.mp hbefore]
  exact Nat.le_refl 0

theorem EndsFollowStarts.append {events added : List Event} (hevents : EndsFollowStarts events)
    (hadded : ∀ more, more <+: added → ∀ id,
      edgeCount .stop id (events ++ more) ≤ edgeCount .start id (events ++ more)) :
    EndsFollowStarts (events ++ added) := by
  intro before hbefore id
  rcases List.prefix_or_prefix_of_prefix hbefore (List.prefix_append events added) with
    hearly | ⟨more, rfl⟩
  · exact hevents before hearly id
  · exact hadded more ((List.prefix_append_right_inj events).mp hbefore) id

theorem EndsFollowStarts.append_singleton {events : List Event} {event : Event}
    (hevents : EndsFollowStarts events)
    (hevent : ∀ id, edgeCount .stop id (events ++ [event]) ≤
      edgeCount .start id (events ++ [event])) : EndsFollowStarts (events ++ [event]) := by
  refine hevents.append fun more hmore id => ?_
  rcases List.prefix_cons_iff.mp hmore with rfl | ⟨rest, rfl, hrest⟩
  · rw [List.append_nil]
    exact hevents events List.prefix_rfl id
  · rw [List.prefix_nil.mp hrest]
    exact hevent id

namespace Diagram

theorem edgeCount_numberMessages (edge : ActivationEdge) (id : String) (count : UInt32)
    (events : List Event) :
    edgeCount edge id (numberMessages count events) = edgeCount edge id events := by
  unfold edgeCount
  induction events generalizing count with
  | nil => rfl
  | cons event rest ih => cases event <;> simp [numberMessages, List.count_cons, ih]

theorem take_numberMessages (count : UInt32) (events : List Event) (length : Nat) :
    (numberMessages count events).take length = numberMessages count (events.take length) := by
  induction events generalizing count length with
  | nil => simp [numberMessages]
  | cons event rest ih =>
      cases length with
      | zero => rfl
      | succ length => cases event <;> simp [numberMessages, ih]

theorem endsFollowStarts_numberMessages {events : List Event} (hevents : EndsFollowStarts events)
    (count : UInt32) : EndsFollowStarts (numberMessages count events) := by
  intro before hbefore id
  rw [List.prefix_iff_eq_take.mp hbefore, take_numberMessages, edgeCount_numberMessages,
    edgeCount_numberMessages]
  exact hevents _ (List.take_prefix _ events) id

theorem actor?_of_mem {diagram : Diagram} (hdistinct : diagram.names.Nodup)
    {actor : Actor} (hmem : actor ∈ diagram.actors) :
    diagram.actor? actor.name = some actor := by
  obtain ⟨found, hfound⟩ := exists_actor (List.mem_map_of_mem (f := Actor.name) hmem)
  have hname := actor?_name hfound
  have hsame := List.inj_on_of_nodup_map hdistinct (List.mem_of_find?_eq_some hfound) hmem hname
  rw [hfound, hsame]

theorem activationDepth_register (diagram : Diagram) (wrap : Bool) (id : String)
    (label : Option String) (role : Option ActorRole) (other : String) :
    (diagram.register wrap id label role).activationDepth other =
      diagram.activationDepth other := by
  unfold activationDepth
  rw [actor?_register]
  by_cases hid : other = id
  · rw [if_pos hid, hid]
    cases diagram.actor? id <;> rfl
  · rw [if_neg hid]

theorem activationDepth_changeActor {diagram : Diagram} {id : String} {change : Actor → Actor}
    (deepen : UInt32 → UInt32) (hname : ∀ actor, (change actor).name = actor.name)
    (hdepth : ∀ actor, (change actor).activationDepth = deepen actor.activationDepth)
    (hmem : id ∈ diagram.names) (other : String) :
    (diagram.changeActor id change).activationDepth other =
      if other = id then deepen (diagram.activationDepth id)
      else diagram.activationDepth other := by
  obtain ⟨actor, hfound⟩ := exists_actor hmem
  unfold activationDepth
  rw [actor?_changeActor diagram id hname]
  by_cases hid : other = id
  · simp [hid, hfound, hdepth]
  · simp [hid]

theorem activationDepth_mention (diagram : Diagram) (wrap : Bool) (id other : String) :
    (diagram.mention wrap id).activationDepth other = diagram.activationDepth other :=
  activationDepth_register ..

theorem activationDepth_addMessage (diagram : Diagram) (wrap : Bool) (source target : String)
    (kind : MessageKind) (text id : String) :
    (diagram.addMessage wrap source target kind text).activationDepth id =
      diagram.activationDepth id := by
  calc
    (diagram.addMessage wrap source target kind text).activationDepth id =
        ((diagram.mention wrap source).mention wrap target).activationDepth id := rfl
    _ = (diagram.mention wrap source).activationDepth id := activationDepth_mention ..
    _ = diagram.activationDepth id := activationDepth_mention ..

theorem activationDepth_addNote (diagram : Diagram) (wrap : Bool) (placement : NotePlacement)
    (first : String) (second : Option String) (text id : String) :
    (diagram.addNote wrap placement first second text).activationDepth id =
      diagram.activationDepth id := by
  calc
    (diagram.addNote wrap placement first second text).activationDepth id =
        ((diagram.mention wrap first).mention wrap (second.getD first)).activationDepth id := rfl
    _ = (diagram.mention wrap first).activationDepth id := activationDepth_mention ..
    _ = diagram.activationDepth id := activationDepth_mention ..

theorem activationDepth_activate (diagram : Diagram) (wrap : Bool) (id other : String) :
    (diagram.activate wrap id).activationDepth other =
      if other = id then diagram.activationDepth id + 1 else diagram.activationDepth other := by
  have hmem : id ∈ (diagram.mention wrap id).names := by
    rw [names_mention]
    exact mem_addName.mpr (.inr rfl)
  rw [← activationDepth_mention diagram wrap id other, ← activationDepth_mention diagram wrap id id]
  refine activationDepth_changeActor (· + 1) ?_ ?_ hmem other <;> exact fun _ => rfl

theorem deactivate?_eq_none_iff {diagram : Diagram} {id : String} :
    diagram.deactivate? id = none ↔ diagram.activationDepth id = 0 := by
  unfold deactivate?
  split
  · rename_i hzero
    exact ⟨fun _ => hzero, fun _ => rfl⟩
  · rename_i hactive
    exact ⟨nofun, fun hzero => absurd hzero hactive⟩

theorem activationDepth_deactivate? {before after : Diagram} {id : String}
    (hdeactivate : before.deactivate? id = some after) (other : String) :
    after.activationDepth other =
      if other = id then before.activationDepth id - 1 else before.activationDepth other := by
  have hmem := (deactivate?_eq_some hdeactivate).2.2
  unfold deactivate? at hdeactivate
  split at hdeactivate
  · cases hdeactivate
  · rw [← Option.some.inj hdeactivate]
    refine activationDepth_changeActor (· - 1) ?_ ?_ hmem other <;> exact fun _ => rfl

/-- Actors, depths and events tell the same. A depth is a number of 32 bits. -/
structure Balanced (diagram : Diagram) : Prop where
  distinct : diagram.names.Nodup
  registered : diagram.Registered
  follow : EndsFollowStarts diagram.events
  depth : ∀ id, diagram.activationDepth id =
    .ofNat (edgeCount .start id diagram.events - edgeCount .stop id diagram.events)

theorem Balanced.empty : empty.Balanced where
  distinct := List.nodup_nil
  registered := nofun
  follow := EndsFollowStarts.nil
  depth := fun _ => rfl

variable {before after : Diagram}

theorem Balanced.of_append {added : List Event} (hbefore : before.Balanced)
    (hdistinct : after.names.Nodup) (hregistered : after.Registered)
    (hevents : after.events = before.events ++ added) (hadded : NoEdge added)
    (hdepth : ∀ id, after.activationDepth id = before.activationDepth id) : after.Balanced where
  distinct := hdistinct
  registered := hregistered
  follow := by
    rw [hevents]
    apply hbefore.follow.append
    intro more hmore id
    have hstop : edgeCount .stop id more ≤ edgeCount .stop id added := hmore.sublist.count_le _
    have hnone := hadded .stop id
    have hle := hbefore.follow before.events List.prefix_rfl id
    rw [edgeCount_append, edgeCount_append]
    omega
  depth := by
    intro id
    rw [hdepth, hbefore.depth, hevents, edgeCount_append, edgeCount_append, hadded, hadded]
    rfl

theorem Balanced.of_events_eq (hbefore : before.Balanced) (hdistinct : after.names.Nodup)
    (hregistered : after.Registered) (hevents : after.events = before.events)
    (hdepth : ∀ id, after.activationDepth id = before.activationDepth id) : after.Balanced := by
  refine hbefore.of_append hdistinct hregistered ?_ (fun _ _ => rfl : NoEdge []) hdepth
  rw [hevents, List.append_nil]

variable {diagram : Diagram}

theorem Balanced.register (hbalanced : diagram.Balanced) (wrap : Bool) (id : String)
    (label : Option String) (role : Option ActorRole) :
    (diagram.register wrap id label role).Balanced := by
  refine hbalanced.of_events_eq ?_ ?_ (events_register ..) fun _ => activationDepth_register ..
  · rw [names_register]
    exact nodup_addName hbalanced.distinct id
  · exact hbalanced.registered.register wrap id label role

theorem Balanced.addMessage (hbalanced : diagram.Balanced) (wrap : Bool) (source target : String)
    (kind : MessageKind) (text : String) :
    (diagram.addMessage wrap source target kind text).Balanced := by
  refine hbalanced.of_append ?_ (hbalanced.registered.addMessage wrap source target kind text)
    (events_addMessage ..) (fun _ _ => rfl) fun _ => activationDepth_addMessage ..
  rw [names_addMessage]
  exact nodup_addName (nodup_addName hbalanced.distinct source) target

theorem Balanced.addNote (hbalanced : diagram.Balanced) (wrap : Bool) (placement : NotePlacement)
    (first : String) (second : Option String) (text : String) :
    (diagram.addNote wrap placement first second text).Balanced := by
  refine hbalanced.of_append ?_ (hbalanced.registered.addNote wrap placement first second text)
    (events_addNote ..) (fun _ _ => rfl) fun _ => activationDepth_addNote ..
  rw [names_addNote]
  exact nodup_addName (nodup_addName hbalanced.distinct first) (second.getD first)

theorem Balanced.addBlockMarker (hbalanced : diagram.Balanced) (marker : BlockMarker)
    (label : Option String) : (diagram.addBlockMarker marker label).Balanced :=
  hbalanced.of_append hbalanced.distinct (hbalanced.registered.addBlockMarker marker label) rfl
    (fun _ _ => rfl) fun _ => rfl

theorem Balanced.activate (hbalanced : diagram.Balanced) (wrap : Bool) (id : String) :
    (diagram.activate wrap id).Balanced := by
  have hedge : ActivationEdge.start ≠ .stop := nofun
  have hle := hbalanced.follow diagram.events List.prefix_rfl
  refine ⟨?_, hbalanced.registered.activate wrap id, ?_, ?_⟩
  · rw [names_activate]
    exact nodup_addName hbalanced.distinct id
  · rw [events_activate]
    refine hbalanced.follow.append_singleton fun other => ?_
    have hother := hle other
    rw [edgeCount_append_same, edgeCount_append_other hedge]
    omega
  · intro other
    rw [activationDepth_activate, events_activate, edgeCount_append_same,
      edgeCount_append_other hedge]
    by_cases hid : other = id
    · rw [if_pos hid, if_pos hid.symm, hid, hbalanced.depth, Nat.sub_add_comm (hle id),
        UInt32.ofNat_add]
      rfl
    · rw [if_neg hid, if_neg (Ne.symm hid), Nat.add_zero, hbalanced.depth]

theorem Balanced.deactivate? (hbefore : before.Balanced) {id : String}
    (hdeactivate : before.deactivate? id = some after) : after.Balanced := by
  obtain ⟨hnames, hevents, hmem⟩ := deactivate?_eq_some hdeactivate
  have hedge : ActivationEdge.stop ≠ .start := nofun
  have hle := hbefore.follow before.events List.prefix_rfl
  -- the depth is not zero, so a start is open
  have hopen : edgeCount .stop id before.events < edgeCount .start id before.events := by
    by_contra hclosed
    have hzero : before.activationDepth id = 0 := by
      rw [hbefore.depth, Nat.sub_eq_zero_of_le (by omega)]
      rfl
    rw [deactivate?_eq_none_iff.mpr hzero] at hdeactivate
    cases hdeactivate
  refine ⟨hnames ▸ hbefore.distinct, hbefore.registered.deactivate? hdeactivate, ?_, ?_⟩
  · rw [hevents]
    refine hbefore.follow.append_singleton fun other => ?_
    have hother := hle other
    rw [edgeCount_append_same, edgeCount_append_other hedge]
    by_cases hid : id = other
    · rw [if_pos hid, ← hid]
      omega
    · rw [if_neg hid]
      omega
  · intro other
    rw [activationDepth_deactivate? hdeactivate, hevents, edgeCount_append_same,
      edgeCount_append_other hedge]
    by_cases hid : other = id
    · have hdeeper : edgeCount .start id before.events - edgeCount .stop id before.events =
          edgeCount .start id before.events - (edgeCount .stop id before.events + 1) + 1 := by
        omega
      rw [if_pos hid, if_pos hid.symm, hid, hbefore.depth, hdeeper, UInt32.ofNat_add]
      exact UInt32.add_sub_cancel ..
    · rw [if_neg hid, if_neg (Ne.symm hid), Nat.add_zero, hbefore.depth]

theorem Balanced.enableAutonumber (hbalanced : diagram.Balanced) :
    diagram.enableAutonumber.Balanced := by
  refine ⟨?_, hbalanced.registered.enableAutonumber, ?_, ?_⟩
  · rw [names_enableAutonumber]
    exact hbalanced.distinct
  · unfold Diagram.enableAutonumber
    split
    · exact hbalanced.follow
    · exact endsFollowStarts_numberMessages hbalanced.follow 0
  · intro id
    unfold Diagram.enableAutonumber
    split
    · exact hbalanced.depth id
    · rw [edgeCount_numberMessages, edgeCount_numberMessages]
      exact hbalanced.depth id

end Diagram

namespace Chart

theorem balanced_keptByEdits : KeptByEdits fun chart => chart.diagram.Balanced := by
  intro chart edit hbalanced
  cases edit with
  | addActor id label => exact hbalanced.register _ id label none
  | declareActor id label role => exact hbalanced.register _ id label (some role)
  | addMessage source target kind text => exact hbalanced.addMessage ..
  | activate id => exact hbalanced.activate ..
  | deactivate id =>
      rw [Chart.edit, deactivate?]
      cases hdeactivate : chart.diagram.deactivate? id with
      | none => exact hbalanced
      | some diagram => exact hbalanced.deactivate? hdeactivate
  | addNote placement first second text => exact hbalanced.addNote ..
  | addBlockMarker marker label => exact hbalanced.addBlockMarker ..
  | enableAutonumber => exact hbalanced.enableAutonumber
  | setTitle | setAccTitle | setAccDescription =>
      exact ⟨hbalanced.distinct, hbalanced.registered, hbalanced.follow, hbalanced.depth⟩
  | setWrap | configure => exact hbalanced

theorem Built.balanced {chart : Chart} (hbuilt : chart.Built) : chart.diagram.Balanced :=
  hbuilt.invariant balanced_keptByEdits fun _ => .empty

theorem Built.depth_toNat {chart : Chart} (hbuilt : chart.Built)
    (hevents : chart.diagram.events.length < UInt32.size) (id : String) :
    (chart.diagram.activationDepth id).toNat + edgeCount .stop id chart.diagram.events =
      edgeCount .start id chart.diagram.events := by
  have hle := hbuilt.balanced.follow chart.diagram.events List.prefix_rfl id
  have hlength := edgeCount_le_length .start id chart.diagram.events
  rw [hbuilt.balanced.depth, UInt32.toNat_ofNat_of_lt' (by omega)]
  omega

/-- **Actors, depths and events agree** in every chart that is built, as long as a depth can count
its events. An activation can end exactly if the actor has more starts than ends. -/
theorem Built.activations_agree {chart : Chart} (hbuilt : chart.Built)
    (hevents : chart.diagram.events.length < UInt32.size) :
    chart.diagram.names.Nodup ∧
      (∀ event ∈ chart.diagram.events, ∀ name ∈ event.actors,
        ∃ actor ∈ chart.diagram.actors, actor.name = name) ∧
      (∀ actor ∈ chart.diagram.actors,
        actor.activationDepth.toNat + edgeCount .stop actor.name chart.diagram.events =
          edgeCount .start actor.name chart.diagram.events) ∧
      (∀ before, before <+: chart.diagram.events →
        ∀ id, edgeCount .stop id before ≤ edgeCount .start id before) ∧
      ∀ id, (chart.deactivate? id = none ↔
          edgeCount .start id chart.diagram.events = edgeCount .stop id chart.diagram.events) ∧
        (chart.deactivate? id = none → chart.operate (.edit (.deactivate id)) = chart) := by
  have hbalanced := hbuilt.balanced
  refine ⟨hbalanced.distinct, ?_, ?_, hbalanced.follow, ?_⟩
  · intro event hevent name hname
    exact List.mem_map.mp (hbalanced.registered event hevent name hname)
  · intro actor hactor
    have hdepth := hbuilt.depth_toNat hevents actor.name
    rwa [Diagram.activationDepth, Diagram.actor?_of_mem hbalanced.distinct hactor] at hdepth
  · intro id
    have hdepth := hbuilt.depth_toNat hevents id
    refine ⟨?_, ?_⟩
    · rw [deactivate?, Option.map_eq_none_iff, Diagram.deactivate?_eq_none_iff]
      constructor
      · intro hzero
        rw [hzero] at hdepth
        exact hdepth.symm.trans (Nat.zero_add _)
      · intro hcounts
        apply UInt32.toNat_inj.mp
        change _ = 0
        omega
    · intro hnone
      rw [Chart.operate, Chart.edit, hnone]
      rfl

/-- A reading that fails between two edits. -/
def interrupted : List Operation :=
  [.edit (.addActor "A" none), .readCode "sequenceDiagram\nA->>+B: hi\ndeactivate A" [],
    .edit (.activate "B"), .edit (.deactivate "B")]

theorem interrupted_agree : (empty.operateAll interrupted).Built ∧
    (empty.operateAll interrupted).diagram.events.length < UInt32.size ∧
    (∃ actor ∈ (empty.operateAll interrupted).diagram.actors, actor.name = "B" ∧
      actor.activationDepth.toNat + 1 = 2) ∧
    ((empty.operateAll interrupted).deactivate? "A" = none ↔
      edgeCount .start "A" (empty.operateAll interrupted).diagram.events =
        edgeCount .stop "A" (empty.operateAll interrupted).diagram.events) := by
  have hbuilt : (empty.operateAll interrupted).Built :=
    Built.operateAll (.new .standard) interrupted
  have hevents : (empty.operateAll interrupted).diagram.events.length < UInt32.size := by
    decide +kernel
  obtain ⟨-, -, hdepths, -, hdeactivate⟩ := Built.activations_agree hbuilt hevents
  obtain ⟨actor, hactor, hname⟩ :
      ∃ actor ∈ (empty.operateAll interrupted).diagram.actors, actor.name = "B" := by
    decide +kernel
  have hcounts : edgeCount .start "B" (empty.operateAll interrupted).diagram.events = 2 ∧
      edgeCount .stop "B" (empty.operateAll interrupted).diagram.events = 1 := by
    decide +kernel
  have hdepth := hdepths actor hactor
  rw [hname, hcounts.1, hcounts.2] at hdepth
  exact ⟨hbuilt, hevents, ⟨actor, hactor, hname, hdepth⟩, (hdeactivate "A").1⟩

end Chart

end SequenceChart
