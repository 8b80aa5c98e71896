import SequenceChart.Chart

/-!
# The registry of actors

The registry only grows, and every operation that adds an event registers the actors that the event
names. So in a diagram that is built from nothing no event names a stranger.
-/

namespace SequenceChart

def Event.actors : Event → List String
  | message sent => [sent.source, sent.target]
  | note placed => [placed.first, placed.second]
  | activation _ actor => [actor]
  | block _ _ => []

/-- Names in order of first mention, after one more mention. -/
def addName (names : List String) (name : String) : List String :=
  if name ∈ names then names else names ++ [name]

theorem mem_addName {names : List String} {name other : String} :
    other ∈ addName names name ↔ other ∈ names ∨ other = name := by
  unfold addName
  split
  · rename_i hmem
    constructor
    · exact Or.inl
    · rintro (hother | rfl)
      · exact hother
      · exact hmem
  · simp

theorem nodup_addName {names : List String} (hdistinct : names.Nodup) (name : String) :
    (addName names name).Nodup := by
  unfold addName
  split
  · exact hdistinct
  · rename_i hmem
    rw [List.nodup_append]
    refine ⟨hdistinct, List.pairwise_singleton _ name, ?_⟩
    intro known hknown other hother heq
    rw [List.mem_singleton.mp hother] at heq
    exact hmem (heq ▸ hknown)

namespace Diagram

/-- The names of the registered actors, in order. -/
def names (diagram : Diagram) : List String :=
  diagram.actors.map Actor.name

/-- Every actor that an event names is registered. -/
def Registered (diagram : Diagram) : Prop :=
  ∀ event ∈ diagram.events, ∀ name ∈ event.actors, name ∈ diagram.names

theorem actor?_eq_none_iff {diagram : Diagram} {id : String} :
    diagram.actor? id = none ↔ id ∉ diagram.names := by
  simp [actor?, names]

theorem actor?_name {diagram : Diagram} {id : String} {actor : Actor}
    (hfound : diagram.actor? id = some actor) : actor.name = id := by
  simpa using List.find?_some hfound

theorem exists_actor {diagram : Diagram} {id : String} (hmem : id ∈ diagram.names) :
    ∃ actor, diagram.actor? id = some actor := by
  rw [← Option.ne_none_iff_exists', ne_eq, actor?_eq_none_iff]
  exact not_not_intro hmem

@[simp]
theorem names_addEvent (diagram : Diagram) (event : Event) :
    (diagram.addEvent event).names = diagram.names := rfl

@[simp]
theorem events_addEvent (diagram : Diagram) (event : Event) :
    (diagram.addEvent event).events = diagram.events ++ [event] := rfl

@[simp]
theorem events_changeActor (diagram : Diagram) (id : String) (change : Actor → Actor) :
    (diagram.changeActor id change).events = diagram.events := rfl

theorem names_changeActor (diagram : Diagram) (id : String) {change : Actor → Actor}
    (hname : ∀ actor, (change actor).name = actor.name) :
    (diagram.changeActor id change).names = diagram.names := by
  simp only [names, changeActor, List.map_map]
  refine List.map_congr_left fun actor _ => ?_
  simp only [Function.comp_apply]
  split
  · exact hname actor
  · rfl

theorem actor?_changeActor (diagram : Diagram) (id : String) {change : Actor → Actor}
    (hname : ∀ actor, (change actor).name = actor.name) (other : String) :
    (diagram.changeActor id change).actor? other =
      if other = id then (diagram.actor? other).map change else diagram.actor? other := by
  have hsame : ((fun actor : Actor => decide (actor.name = other)) ∘
      fun actor => if actor.name = id then change actor else actor) =
        fun actor => decide (actor.name = other) := by
    funext actor
    simp only [Function.comp_apply]
    split
    · rw [hname]
    · rfl
  unfold actor? changeActor
  rw [List.find?_map, hsame]
  cases hfound : diagram.actors.find? (·.name = other) with
  | none => simp
  | some actor =>
      have hother := actor?_name hfound
      by_cases hid : other = id
      · simp [hother, hid]
      · simp [hother, hid]

@[simp]
theorem events_register (diagram : Diagram) (wrap : Bool) (id : String) (label : Option String)
    (role : Option ActorRole) : (diagram.register wrap id label role).events = diagram.events := by
  unfold register
  dsimp only
  split <;> rfl

@[simp]
theorem autonumber_register (diagram : Diagram) (wrap : Bool) (id : String)
    (label : Option String) (role : Option ActorRole) :
    (diagram.register wrap id label role).autonumber = diagram.autonumber := by
  unfold register
  dsimp only
  split <;> rfl

@[simp]
theorem messageCount_register (diagram : Diagram) (wrap : Bool) (id : String)
    (label : Option String) (role : Option ActorRole) :
    (diagram.register wrap id label role).messageCount = diagram.messageCount := by
  unfold register
  dsimp only
  split <;> rfl

@[simp]
theorem names_register (diagram : Diagram) (wrap : Bool) (id : String) (label : Option String)
    (role : Option ActorRole) :
    (diagram.register wrap id label role).names = addName diagram.names id := by
  unfold register addName
  by_cases hmem : id ∈ diagram.names
  · obtain ⟨actor, hfound⟩ := exists_actor hmem
    rw [if_pos hmem, hfound]
    exact names_changeActor diagram id fun _ => rfl
  · rw [if_neg hmem, actor?_eq_none_iff.mpr hmem]
    simp [names, newActor]

theorem actor?_register (diagram : Diagram) (wrap : Bool) (id : String) (label : Option String)
    (role : Option ActorRole) (other : String) :
    (diagram.register wrap id label role).actor? other =
      if other = id then
        some (((diagram.actor? id).map (refreshActor wrap (label.map MarkedText.read) role)).getD
          (newActor wrap id (label.map MarkedText.read) role))
      else diagram.actor? other := by
  unfold register
  cases hfound : diagram.actor? id with
  | some actor =>
      have hname (known : Actor) :
          (refreshActor wrap (label.map MarkedText.read) role known).name = known.name := rfl
      dsimp only
      rw [actor?_changeActor diagram id hname]
      by_cases hid : other = id
      · simp [hid, hfound]
      · simp [hid]
  | none =>
      have hnew : (newActor wrap id (label.map MarkedText.read) role).name = id := rfl
      by_cases hid : other = id
      · subst hid
        unfold actor? at hfound
        simp [actor?, hfound, hnew]
      · simp [actor?, hnew, Ne.symm hid, hid]

theorem names_mention (diagram : Diagram) (wrap : Bool) (id : String) :
    (diagram.mention wrap id).names = addName diagram.names id :=
  names_register ..

theorem events_declareActor (diagram : Diagram) (wrap : Bool) (id : String)
    (label : Option String) (role : ActorRole) :
    (diagram.declareActor wrap id label role).events = diagram.events :=
  events_register ..

theorem names_addMessage (diagram : Diagram) (wrap : Bool) (source target : String)
    (kind : MessageKind) (text : String) :
    (diagram.addMessage wrap source target kind text).names =
      addName (addName diagram.names source) target := by
  rw [← names_mention diagram wrap source, ← names_mention _ wrap target]
  rfl

theorem events_addMessage (diagram : Diagram) (wrap : Bool) (source target : String)
    (kind : MessageKind) (text : String) :
    (diagram.addMessage wrap source target kind text).events =
      diagram.events ++ [.message
        { kind, source, target
          text := (MarkedText.read text).text
          wrap := (MarkedText.read text).wrap.getD wrap
          sequenceNumber :=
            if diagram.autonumber then some (diagram.messageCount + 1) else none }] := by
  simp [addMessage, addEvent, mention, addActor]

theorem names_activate (diagram : Diagram) (wrap : Bool) (id : String) :
    (diagram.activate wrap id).names = addName diagram.names id := by
  rw [activate, names_addEvent, names_changeActor, names_mention]
  exact fun _ => rfl

theorem events_activate (diagram : Diagram) (wrap : Bool) (id : String) :
    (diagram.activate wrap id).events = diagram.events ++ [.activation .start id] := by
  simp [activate, mention, addActor]

theorem deactivate?_eq_some {before after : Diagram} {id : String}
    (hdeactivate : before.deactivate? id = some after) :
    after.names = before.names ∧ after.events = before.events ++ [.activation .stop id] ∧
      id ∈ before.names := by
  unfold deactivate? at hdeactivate
  split at hdeactivate
  · exact nomatch hdeactivate
  · rename_i hactive
    rw [← Option.some.inj hdeactivate]
    refine ⟨?_, rfl, ?_⟩
    · rw [names_addEvent, names_changeActor]
      exact fun _ => rfl
    · by_cases hmem : id ∈ before.names
      · exact hmem
      · exact absurd (by simp [activationDepth, actor?_eq_none_iff.mpr hmem]) hactive

theorem names_addNote (diagram : Diagram) (wrap : Bool) (placement : NotePlacement)
    (first : String) (second : Option String) (text : String) :
    (diagram.addNote wrap placement first second text).names =
      addName (addName diagram.names first) (second.getD first) := by
  rw [← names_mention diagram wrap first, ← names_mention _ wrap (second.getD first)]
  rfl

theorem events_addNote (diagram : Diagram) (wrap : Bool) (placement : NotePlacement)
    (first : String) (second : Option String) (text : String) :
    (diagram.addNote wrap placement first second text).events =
      diagram.events ++ [.note
        { placement, first
          second := second.getD first
          text := (MarkedText.read text).text
          wrap := (MarkedText.read text).wrap.getD wrap }] := by
  simp [addNote, mention, addActor]

/-- Numbering changes no more than the numbers of the messages. -/
theorem numberMessages_map {α : Type} (view : Event → α) (count : UInt32) (events : List Event)
    (hview : ∀ (message : Message) number,
      view (.message { message with sequenceNumber := number }) = view (.message message)) :
    (numberMessages count events).map view = events.map view := by
  induction events generalizing count with
  | nil => rfl
  | cons event rest ih => cases event <;> simp [numberMessages, ih, hview]

theorem enableAutonumber_map {α : Type} (view : Event → α) (diagram : Diagram)
    (hview : ∀ (message : Message) number,
      view (.message { message with sequenceNumber := number }) = view (.message message)) :
    diagram.enableAutonumber.events.map view = diagram.events.map view := by
  unfold enableAutonumber
  split
  · rfl
  · exact numberMessages_map view 0 diagram.events hview

theorem names_enableAutonumber (diagram : Diagram) :
    diagram.enableAutonumber.names = diagram.names := by
  unfold enableAutonumber
  split <;> rfl

theorem Registered.of_events_eq {before after : Diagram} (hbefore : before.Registered)
    (hevents : after.events = before.events)
    (hnames : ∀ name ∈ before.names, name ∈ after.names) : after.Registered := by
  intro event hevent name hname
  rw [hevents] at hevent
  exact hnames name (hbefore event hevent name hname)

/-- Adding one event keeps all events registered if its actors are registered as well. -/
theorem Registered.of_events_eq_append {before after : Diagram} {event : Event}
    (hbefore : before.Registered) (hevents : after.events = before.events ++ [event])
    (hnames : ∀ name ∈ before.names, name ∈ after.names)
    (hactors : ∀ name ∈ event.actors, name ∈ after.names) : after.Registered := by
  intro other hother name hname
  rw [hevents, List.mem_append, List.mem_singleton] at hother
  rcases hother with hold | rfl
  · exact hnames name (hbefore other hold name hname)
  · exact hactors name hname

variable {diagram : Diagram}

theorem Registered.register (hregistered : diagram.Registered) (wrap : Bool) (id : String)
    (label : Option String) (role : Option ActorRole) :
    (diagram.register wrap id label role).Registered := by
  refine hregistered.of_events_eq (events_register ..) fun name hname => ?_
  rw [names_register]
  exact mem_addName.mpr (.inl hname)

theorem Registered.addMessage (hregistered : diagram.Registered) (wrap : Bool)
    (source target : String) (kind : MessageKind) (text : String) :
    (diagram.addMessage wrap source target kind text).Registered := by
  refine hregistered.of_events_eq_append (events_addMessage ..) ?_ ?_ <;>
    rw [names_addMessage] <;> simp +contextual [mem_addName, Event.actors]

theorem Registered.activate (hregistered : diagram.Registered) (wrap : Bool) (id : String) :
    (diagram.activate wrap id).Registered := by
  refine hregistered.of_events_eq_append (events_activate ..) ?_ ?_ <;>
    rw [names_activate] <;> simp +contextual [mem_addName, Event.actors]

theorem Registered.deactivate? {after : Diagram} {id : String} (hregistered : diagram.Registered)
    (hdeactivate : diagram.deactivate? id = some after) : after.Registered := by
  obtain ⟨hnames, hevents, hmem⟩ := deactivate?_eq_some hdeactivate
  refine hregistered.of_events_eq_append hevents ?_ ?_ <;> rw [hnames]
  · exact fun _ hname => hname
  · simpa [Event.actors] using hmem

theorem Registered.addNote (hregistered : diagram.Registered) (wrap : Bool)
    (placement : NotePlacement) (first : String) (second : Option String) (text : String) :
    (diagram.addNote wrap placement first second text).Registered := by
  refine hregistered.of_events_eq_append (events_addNote ..) ?_ ?_ <;>
    rw [names_addNote] <;> simp +contextual [mem_addName, Event.actors]

theorem Registered.addBlockMarker (hregistered : diagram.Registered) (marker : BlockMarker)
    (label : Option String) : (diagram.addBlockMarker marker label).Registered :=
  hregistered.of_events_eq_append rfl (fun _ hname => hname) nofun

theorem Registered.enableAutonumber (hregistered : diagram.Registered) :
    diagram.enableAutonumber.Registered := by
  intro event hevent name hname
  have hactors := enableAutonumber_map Event.actors diagram fun _ _ => rfl
  have hmem : event.actors ∈ diagram.events.map Event.actors :=
    hactors ▸ List.mem_map_of_mem hevent
  obtain ⟨original, horiginal, heq⟩ := List.mem_map.mp hmem
  rw [names_enableAutonumber]
  exact hregistered original horiginal name (heq ▸ hname)

end Diagram

end SequenceChart
