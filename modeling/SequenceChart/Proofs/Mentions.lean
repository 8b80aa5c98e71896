import SequenceChart.Proofs.Histories

/-!
# What the registry keeps of mentions

The registry lists every actor once, in the order of first mention. An actor's place is settled by
its first mention, its role by its last declaration, its description by its last alias. Whether its
lines are wrapped is settled at one moment of the history: that of the last alias, or that of the
first mention if there is no alias.
-/

namespace SequenceChart

/-- An actor being mentioned, where `wrap` tells whether lines were wrapped at that moment. -/
structure Mention where
  id : String
  label : Option String
  role : Option ActorRole
  wrap : Bool

namespace Mention

/-- A mention that neither declares the actor nor gives it an alias. -/
def bare (wrap : Bool) (id : String) : Mention :=
  { id, label := none, role := none, wrap }

/-- The alias given, together with the setting for texts that have no marker. -/
def alias? (mention : Mention) : Option (String × Bool) :=
  mention.label.map fun label => (label, mention.wrap)

end Mention

namespace Chart

/-- The mentions that an edit makes, in order: the source of a message before its target. An
activation that cannot end mentions nobody. -/
def mentions (chart : Chart) : Edit → List Mention
  | .addActor id label => [{ id, label, role := none, wrap := chart.wrapEnabled }]
  | .declareActor id label role => [{ id, label, role := some role, wrap := chart.wrapEnabled }]
  | .addMessage source target _ _ =>
      [.bare chart.wrapEnabled source, .bare chart.wrapEnabled target]
  | .activate id => [.bare chart.wrapEnabled id]
  | .deactivate id => if (chart.deactivate? id).isSome then [.bare chart.wrapEnabled id] else []
  | .addNote _ first second _ =>
      [.bare chart.wrapEnabled first, .bare chart.wrapEnabled (second.getD first)]
  | .addBlockMarker _ _ | .setTitle _ | .setAccTitle _ | .setAccDescription _
  | .enableAutonumber | .setWrap _ | .configure _ => []

def mentionsAll (chart : Chart) : List Edit → List Mention
  | [] => []
  | edit :: rest => chart.mentions edit ++ (chart.edit edit).mentionsAll rest

end Chart

def History.mentions (history : History) : List Mention :=
  (Chart.withSettings history.settings).mentionsAll history.edits

/-- The actor is what its mentions make of it. -/
structure Actor.MadeBy (actor : Actor) (own : List Mention) : Prop where
  role : actor.role = (own.filterMap Mention.role).getLast?.getD .participant
  unlabelled : own.filterMap Mention.alias? = [] →
    actor.description = actor.name ∧ own.head?.map Mention.wrap = some actor.wrap
  labelled : ∀ label wrap, (own.filterMap Mention.alias?).getLast? = some (label, wrap) →
    Cleaned label actor.description ∧ TextWraps label wrap actor.wrap

/-- The registry is what the mentions make of it. -/
structure Diagram.Records (diagram : Diagram) (mentions : List Mention) : Prop where
  order : diagram.names = (mentions.map Mention.id).eraseDups
  distinct : diagram.names.Nodup
  made : ∀ actor ∈ diagram.actors, actor.MadeBy (mentions.filter (·.id = actor.name))

theorem eraseDups_concat (names : List String) (name : String) :
    (names ++ [name]).eraseDups = addName names.eraseDups name := by
  rw [List.eraseDups_append]
  unfold addName
  by_cases hmem : name ∈ names
  · have hold : [name].removeAll names = [] := by
      simp [List.removeAll, hmem]
    rw [if_pos (List.mem_eraseDups.mpr hmem), hold, List.eraseDups_nil, List.append_nil]
  · have hnew : [name].removeAll names = [name] := by
      simp [List.removeAll, hmem]
    rw [if_neg (mt List.mem_eraseDups.mp hmem), hnew, List.eraseDups_cons, List.filter_nil,
      List.eraseDups_nil]

namespace Actor.MadeBy

variable {actor : Actor} {own : List Mention}

theorem new (mention : Mention) :
    (Diagram.newActor mention.wrap mention.id (mention.label.map MarkedText.read)
      mention.role).MadeBy [mention] := by
  obtain ⟨id, label, role, wrap⟩ := mention
  refine ⟨?_, ?_, ?_⟩
  · cases role <;> rfl
  · intro hnone
    cases label with
    | none => exact ⟨rfl, rfl⟩
    | some label => exact nomatch hnone
  · intro last setting hlast
    cases label with
    | none => exact nomatch hlast
    | some label =>
        obtain ⟨rfl, rfl⟩ : label = last ∧ wrap = setting := by
          simpa [Mention.alias?] using hlast
        exact ⟨MarkedText.cleaned_iff.mpr rfl, textWraps_read label wrap⟩

/-- A later mention changes what it tells and nothing else. -/
theorem refresh (hmade : actor.MadeBy own) (mention : Mention) :
    (Diagram.refreshActor mention.wrap (mention.label.map MarkedText.read) mention.role
      actor).MadeBy (own ++ [mention]) := by
  obtain ⟨id, label, role, wrap⟩ := mention
  refine ⟨?_, ?_, ?_⟩
  · rw [List.filterMap_append, List.getLast?_append]
    cases role with
    | none => exact hmade.role
    | some role => rfl
  · intro hnone
    rw [List.filterMap_append, List.append_eq_nil_iff] at hnone
    cases label with
    | none =>
        obtain ⟨hdescription, hwrap⟩ := hmade.unlabelled hnone.1
        refine ⟨hdescription, ?_⟩
        rw [List.head?_append]
        obtain ⟨first, hfirst, hsetting⟩ := Option.map_eq_some_iff.mp hwrap
        rw [hfirst]
        exact congrArg some hsetting
    | some label => exact nomatch hnone.2
  · intro last setting hlast
    rw [List.filterMap_append, List.getLast?_append] at hlast
    cases label with
    | none => exact hmade.labelled last setting hlast
    | some label =>
        obtain ⟨rfl, rfl⟩ : label = last ∧ wrap = setting := by
          simpa [Mention.alias?] using hlast
        exact ⟨MarkedText.cleaned_iff.mpr rfl, textWraps_read label wrap⟩

theorem withDepth (hmade : actor.MadeBy own) (depth : UInt32) :
    { actor with activationDepth := depth }.MadeBy own :=
  ⟨hmade.role, hmade.unlabelled, hmade.labelled⟩

end Actor.MadeBy

namespace Diagram

/-- A mention that tells nothing of a registered actor changes nothing. -/
theorem mention_of_mem {diagram : Diagram} {id : String} (hmem : id ∈ diagram.names)
    (wrap : Bool) : diagram.mention wrap id = diagram := by
  obtain ⟨actor, hfound⟩ := exists_actor hmem
  unfold mention addActor register changeActor
  rw [hfound]
  simp [refreshActor]

namespace Records

variable {diagram : Diagram} {mentions : List Mention}

theorem of_actors_eq (hrecords : diagram.Records mentions) {later : Diagram}
    (hactors : later.actors = diagram.actors) : later.Records mentions := by
  have hnames : later.names = diagram.names := congrArg (List.map Actor.name) hactors
  refine ⟨?_, ?_, ?_⟩
  · rw [hnames]
    exact hrecords.order
  · rw [hnames]
    exact hrecords.distinct
  · rw [hactors]
    exact hrecords.made

theorem register (hrecords : diagram.Records mentions) (mention : Mention) :
    (diagram.register mention.wrap mention.id mention.label mention.role).Records
      (mentions ++ [mention]) := by
  refine ⟨?_, ?_, ?_⟩
  · rw [names_register, hrecords.order, List.map_append]
    exact (eraseDups_concat _ mention.id).symm
  · rw [names_register]
    exact nodup_addName hrecords.distinct mention.id
  · intro actor hactor
    rw [List.filter_append]
    unfold Diagram.register at hactor
    cases hfound : diagram.actor? mention.id with
    | some registered =>
        rw [hfound] at hactor
        obtain ⟨known, hknown, rfl⟩ := List.mem_map.mp hactor
        have hmade := hrecords.made known hknown
        by_cases hname : known.name = mention.id
        · rw [if_pos hname]
          have hown : [mention].filter (·.id = known.name) = [mention] := by
            simp [hname]
          have hrefreshed := hmade.refresh mention
          rw [← hown] at hrefreshed
          exact hrefreshed
        · rw [if_neg hname]
          have hother : [mention].filter (·.id = known.name) = [] := by
            simpa using Ne.symm hname
          rw [hother, List.append_nil]
          exact hmade
    | none =>
        rw [hfound] at hactor
        have hstranger : mention.id ∉ diagram.names := actor?_eq_none_iff.mp hfound
        rcases List.mem_append.mp hactor with hknown | hnew
        · have hother : [mention].filter (·.id = actor.name) = [] := by
            have hne : mention.id ≠ actor.name := by
              intro heq
              rw [heq] at hstranger
              exact hstranger (List.mem_map_of_mem hknown)
            simpa using hne
          rw [hother, List.append_nil]
          exact hrecords.made actor hknown
        · rw [List.mem_singleton.mp hnew]
          have hfirst : mentions.filter (·.id = mention.id) = [] := by
            apply List.filter_eq_nil_iff.mpr
            intro earlier hearlier hsame
            apply hstranger
            rw [hrecords.order, List.mem_eraseDups]
            exact List.mem_map.mpr ⟨earlier, hearlier, of_decide_eq_true hsame⟩
          change Actor.MadeBy _ (mentions.filter (·.id = mention.id) ++
            [mention].filter (·.id = mention.id))
          rw [hfirst, List.nil_append, List.filter_cons_of_pos (by simp), List.filter_nil]
          exact .new mention

theorem mention (hrecords : diagram.Records mentions) (wrap : Bool) (id : String) :
    (diagram.mention wrap id).Records (mentions ++ [.bare wrap id]) :=
  hrecords.register (.bare wrap id)

/-- The depth of the activations of an actor is no part of the records. -/
theorem changeDepth (hrecords : diagram.Records mentions) (id : String)
    (change : UInt32 → UInt32) :
    (diagram.changeActor id fun actor =>
      { actor with activationDepth := change actor.activationDepth }).Records mentions := by
  have hnames : (diagram.changeActor id fun actor =>
      { actor with activationDepth := change actor.activationDepth }).names = diagram.names :=
    names_changeActor diagram id fun _ => rfl
  refine ⟨?_, ?_, ?_⟩
  · rw [hnames]
    exact hrecords.order
  · rw [hnames]
    exact hrecords.distinct
  · intro actor hactor
    obtain ⟨known, hknown, rfl⟩ := List.mem_map.mp hactor
    have hmade := hrecords.made known hknown
    split
    · exact hmade.withDepth _
    · exact hmade

theorem deactivate? (hrecords : diagram.Records mentions) {later : Diagram} {id : String}
    (hdeactivate : diagram.deactivate? id = some later) (wrap : Bool) :
    later.Records (mentions ++ [.bare wrap id]) := by
  have hmem : id ∈ diagram.names := (deactivate?_eq_some hdeactivate).2.2
  have hmentioned := hrecords.mention wrap id
  rw [mention_of_mem hmem] at hmentioned
  unfold Diagram.deactivate? at hdeactivate
  split at hdeactivate
  · exact nomatch hdeactivate
  · rw [← Option.some.inj hdeactivate]
    exact (hmentioned.changeDepth id (· - 1)).of_actors_eq rfl

end Records

end Diagram

namespace Chart

variable {chart : Chart} {mentions : List Mention}

end Chart

end SequenceChart
