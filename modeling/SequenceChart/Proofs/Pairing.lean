import Mathlib.Data.String.Basic
import SequenceChart.Proofs.Brackets
import SequenceChart.Proofs.Heights
import SequenceChart.Proofs.Rows
import SequenceChart.Proofs.Runs

/-!
# Starts and ends of activations

The activations of an actor lie on a stack: an end takes the latest start of the actor that has not
ended. An activation is placed when it starts, so that what is drawn at its end tells how deep it
lay at its start. In the end those that are left open are drawn, actor by actor.
-/

section Forall₂

variable {α β : Type} {relation : α → β → Prop} {left : List α} {right : List β}

theorem List.Forall₂.tail (hrelated : List.Forall₂ relation left right) :
    List.Forall₂ relation left.tail right.tail := by
  cases hrelated with
  | nil => exact .nil
  | cons _ hrest => exact hrest

theorem List.Forall₂.exists_left (hrelated : List.Forall₂ relation left right) {item : β}
    (hmem : item ∈ right) : ∃ other ∈ left, relation other item := by
  induction hrelated with
  | nil => cases hmem
  | cons hfirst _ ih =>
      rcases List.mem_cons.mp hmem with rfl | hmem
      · exact ⟨_, List.mem_cons_self, hfirst⟩
      · obtain ⟨other, hother, hrelated⟩ := ih hmem
        exact ⟨other, List.mem_cons_of_mem _ hother, hrelated⟩

end Forall₂

namespace SequenceChart

/-- The activations of an actor, as brackets among the events. -/
def activationsOf (name : String) : Brackets where
  opens := (· == .activation .start name)
  closes := (· == .activation .stop name)
  apart := by
    intro event hopens
    rw [eq_of_beq hopens]
    simp

/-- How many activations of the actor the events leave open. -/
def openDepth (name : String) (events : List Event) : ℕ :=
  edgeCount .start name events - edgeCount .stop name events

section Brackets

variable {name : String} {events : List Event} {event : Event}

theorem EndsFollowStarts.of_isPrefix {before : List Event} (hfollow : EndsFollowStarts events)
    (hbefore : before <+: events) : EndsFollowStarts before :=
  fun more hmore => hfollow more (hmore.trans hbefore)

theorem EndsFollowStarts.rises (hfollow : EndsFollowStarts events) (name : String) :
    (activationsOf name).Rises events :=
  fun before hbefore => hfollow before hbefore name

theorem opens_activationsOf_iff :
    (activationsOf name).opens event = true ↔ event = .activation .start name :=
  beq_iff_eq

theorem closes_activationsOf_iff :
    (activationsOf name).closes event = true ↔ event = .activation .stop name :=
  beq_iff_eq

theorem length_unclosed_activations (hrises : (activationsOf name).Rises events) :
    ((activationsOf name).unclosed events).length = openDepth name events :=
  Brackets.length_unclosed hrises

theorem unclosed_start (name : String) (events : List Event) :
    (activationsOf name).unclosed (events ++ [.activation .start name]) =
      events :: (activationsOf name).unclosed events :=
  Brackets.unclosed_opening (opens_activationsOf_iff.mpr rfl)

theorem unclosed_stop (name : String) (events : List Event) :
    (activationsOf name).unclosed (events ++ [.activation .stop name]) =
      ((activationsOf name).unclosed events).tail :=
  Brackets.unclosed_closing (closes_activationsOf_iff.mpr rfl)

theorem unclosed_other (hother : ∀ edge, event ≠ .activation edge name) :
    (activationsOf name).unclosed (events ++ [event]) = (activationsOf name).unclosed events :=
  Brackets.unclosed_plain
    (eq_false_of_ne_true fun hopens => hother .start (opens_activationsOf_iff.mp hopens))
    (eq_false_of_ne_true fun hcloses => hother .stop (closes_activationsOf_iff.mp hcloses))

end Brackets

/-! ### The latest of an actor

The open activations of all actors lie on one list, where those of each actor are a stack of their
own. An end takes one from the stack of its actor and leaves the others as they are. -/

namespace Drawing

variable {drawing later : Drawing ℚ ExactEdge} {pen : Pen ℚ}

/-- The open activations of an actor, the latest first. -/
def latestOf (drawing : Drawing ℚ ExactEdge) (name : String) : List (OpenActivation ℚ) :=
  drawing.openActivations.filter (·.actor = name)

theorem openOf_eq (drawing : Drawing ℚ ExactEdge) (name : String) :
    drawing.openOf name = (drawing.latestOf name).reverse := rfl

theorem mem_latestOf {name : String} {activation : OpenActivation ℚ} :
    activation ∈ drawing.latestOf name ↔
      activation ∈ drawing.openActivations ∧ activation.actor = name := by
  rw [latestOf, List.mem_filter, decide_eq_true_eq]

theorem find?_openActivations (drawing : Drawing ℚ ExactEdge) (name : String) :
    drawing.openActivations.find? (·.actor = name) = (drawing.latestOf name).head? :=
  List.head?_filter.symm

theorem latestOf_cons {activation : OpenActivation ℚ}
    (hopen : later.openActivations = activation :: drawing.openActivations) (name : String) :
    later.latestOf name =
      if activation.actor = name then activation :: drawing.latestOf name
      else drawing.latestOf name := by
  rw [latestOf, hopen, List.filter_cons]
  simp only [decide_eq_true_eq]
  rfl

/-- An end takes the latest start of its actor, and none of another one. -/
theorem filter_eraseP (activations : List (OpenActivation ℚ)) (name other : String) :
    (activations.eraseP (·.actor = name)).filter (·.actor = other) =
      if other = name then (activations.filter (·.actor = other)).tail
      else activations.filter (·.actor = other) := by
  by_cases hany : ∃ activation ∈ activations, activation.actor = name
  · obtain ⟨activation, hmem, hactor⟩ := hany
    obtain ⟨first, front, back, hfront, hfirst, rfl, herase⟩ :=
      List.exists_of_eraseP (p := (·.actor = name)) hmem (decide_eq_true hactor)
    have hfirst : first.actor = name := of_decide_eq_true hfirst
    rw [herase, List.filter_append, List.filter_append, List.filter_cons, hfirst]
    split
    · rename_i hsame
      have hnone : front.filter (·.actor = other) = [] := by
        rw [List.filter_eq_nil_iff, hsame]
        exact hfront
      rw [if_pos (decide_eq_true hsame.symm), hnone]
      rfl
    · rename_i hother
      rw [if_neg (mt of_decide_eq_true (Ne.symm hother))]
  · have hnone : ∀ activation ∈ activations, ¬decide (activation.actor = name) = true :=
      fun activation hmem hactor => hany ⟨activation, hmem, of_decide_eq_true hactor⟩
    rw [List.eraseP_of_forall_not hnone]
    split
    · rename_i hsame
      rw [hsame, List.filter_eq_nil_iff.mpr hnone]
      rfl
    · rfl

theorem latestOf_endActivation (drawing : Drawing ℚ ExactEdge) (name other : String) :
    (drawing.endActivation name).latestOf other =
      if other = name then (drawing.latestOf other).tail else drawing.latestOf other := by
  unfold endActivation
  split
  · rename_i hnone
    rw [find?_openActivations, List.head?_eq_none_iff] at hnone
    split
    · rename_i hsame
      rw [hsame, hnone]
      rfl
    · rfl
  · exact filter_eraseP drawing.openActivations name other

end Drawing

/-- An activation of the actor that starts at the height `y` inside of `depth` others. -/
def PlacedActor.activationAt (actor : PlacedActor ℚ) (width : ℚ) (depth : ℕ) (y : ℚ) :
    OpenActivation ℚ :=
  { actor := actor.name
    depth
    startX := actor.center + (depth - 1) * width / 2
    startY := y
    stopX := actor.center + (depth - 1) * width / 2 + width }

/-- The activation that starts after the events, at the actor as it is placed and a little below the
cursor. -/
def Pen.Begins (pen : Pen ℚ) (actors : List Actor) (name : String) (before : List Event)
    (activation : OpenActivation ℚ) : Prop :=
  ∃ (drawing : Drawing ℚ ExactEdge) (actor : PlacedActor ℚ),
    pen.drawAfter actors before = .ok drawing ∧
      drawing.actors.find? (·.name = name) = some actor ∧
      activation = actor.activationAt pen.settings.activationWidth (openDepth name before)
        (drawing.cursor + 2)

/-- The activation stands at its actor: the first one on the line, and each further one half a width
to the right. -/
def PlacedActivation.StandsIn (row : List (PlacedActor ℚ)) (width : ℚ)
    (placed : PlacedActivation ℚ) : Prop :=
  ∃ actor, row.find? (·.name = placed.actor) = some actor ∧
    placed.startX = actor.center + (placed.depth - 1) * width / 2 ∧
    placed.stopX = placed.startX + width

variable {drawing later : Drawing ℚ ExactEdge} {pen : Pen ℚ} {actors : List Actor}
  {before events : List Event} {name : String} {activation : OpenActivation ℚ}

/-- Wherever an activation ends, it stands where it has begun. -/
theorem Pen.Begins.standsIn (hbegins : pen.Begins actors name before activation)
    (startY stopY : ℚ) :
    (Drawing.OpenActivation.stop { activation with startY } stopY).StandsIn
      (Drawing.placeActors pen 0.0 0.0 actors) pen.settings.activationWidth := by
  obtain ⟨drawing, actor, hdrawing, hfound, rfl⟩ := hbegins
  rw [actors_drawAfter hdrawing] at hfound
  refine ⟨actor, ?_, rfl, rfl⟩
  have hname : actor.name = name := Drawing.name_of_find? hfound
  rw [← hname] at hfound
  exact hfound

theorem Pen.Begins.unique {other : OpenActivation ℚ}
    (hbegins : pen.Begins actors name before activation)
    (hother : pen.Begins actors name before other) : activation = other := by
  obtain ⟨drawing, actor, hdrawing, hfound, rfl⟩ := hbegins
  obtain ⟨same, again, hsame, hagain, rfl⟩ := hother
  obtain rfl := Except.ok.inj (hdrawing.symm.trans hsame)
  obtain rfl := Option.some.inj (hfound.symm.trans hagain)
  rfl

namespace Drawing

/-- The open activations of each actor are those that have started and not ended. -/
structure Pairs (pen : Pen ℚ) (actors : List Actor) (events : List Event)
    (drawing : Drawing ℚ ExactEdge) : Prop where
  begun : ∀ name, List.Forall₂ (pen.Begins actors name) ((activationsOf name).unclosed events)
    (drawing.latestOf name)
  ended : ∀ placed ∈ drawing.activations, ∃ name before began cursor,
    pen.Begins actors name before began ∧ placed = finishActivation began cursor

theorem Pairs.plain (hpairs : drawing.Pairs pen actors events) {event : Event}
    (hplain : ∀ edge name, event ≠ .activation edge name)
    (hdraw : drawing.draw pen event = .ok later) :
    later.Pairs pen actors (events ++ [event]) := by
  obtain ⟨hopen, hactivations⟩ := draw_activations hplain hdraw
  refine ⟨fun name => ?_, hactivations ▸ hpairs.ended⟩
  rw [unclosed_other fun edge => hplain edge name, latestOf, hopen]
  exact hpairs.begun name

theorem Pairs.startActivation (hpairs : drawing.Pairs pen actors events)
    (hdrawing : pen.drawAfter actors events = .ok drawing)
    (hrises : (activationsOf name).Rises events)
    (hdraw : drawing.startActivation pen name = .ok later) :
    later.Pairs pen actors (events ++ [.activation .start name]) := by
  obtain ⟨actor, hactor, hlater⟩ := Except.bind_eq_ok.mp hdraw
  have hfound := actor_eq_ok_iff.mp hactor
  have hname : actor.name = name := name_of_find? hfound
  have hdepth : (drawing.openOf name).length = openDepth name events := by
    rw [openOf_eq, List.length_reverse, ← (hpairs.begun name).length_eq,
      length_unclosed_activations hrises]
  have hstarted : later = { drawing with
      openActivations := actor.activationAt pen.settings.activationWidth (openDepth name events)
        (drawing.cursor + 2) :: drawing.openActivations } := by
    rw [← Except.ok.inj hlater, hdepth, PlacedActor.activationAt, hname]
    norm_num [Scale.natural]
  obtain rfl := hstarted
  refine ⟨fun other => ?_, hpairs.ended⟩
  rw [latestOf_cons rfl]
  split
  · rename_i hsame
    obtain rfl : name = other := hname.symm.trans hsame
    rw [unclosed_start]
    exact .cons ⟨drawing, actor, hdrawing, hfound, rfl⟩ (hpairs.begun name)
  · rename_i hother
    have hne : name ≠ other := fun hsame => hother (hname.trans hsame)
    rw [unclosed_other (by simp [hne])]
    exact hpairs.begun other

theorem Pairs.endActivation (hpairs : drawing.Pairs pen actors events) (name : String) :
    (drawing.endActivation name).Pairs pen actors (events ++ [.activation .stop name]) := by
  refine ⟨fun other => ?_, ?_⟩
  · have hbegun := hpairs.begun other
    rw [latestOf_endActivation]
    split
    · rename_i hsame
      rw [hsame] at hbegun ⊢
      rw [unclosed_stop]
      exact hbegun.tail
    · rename_i hother
      rw [unclosed_other (by simp [Ne.symm hother])]
      exact hbegun
  · unfold Drawing.endActivation
    split
    · exact hpairs.ended
    · rename_i activation hfound
      refine List.forall_mem_append.mpr ⟨hpairs.ended, List.forall_mem_singleton.mpr ?_⟩
      rw [find?_openActivations] at hfound
      have hmem := List.mem_of_mem_head? hfound
      obtain ⟨before, -, hbegins⟩ := (hpairs.begun name).exists_left hmem
      exact ⟨name, before, activation, drawing.cursor, hbegins, rfl⟩

theorem Pairs.draw (hpairs : drawing.Pairs pen actors events)
    (hdrawing : pen.drawAfter actors events = .ok drawing) (hfollow : EndsFollowStarts events)
    {event : Event} (hdraw : drawing.draw pen event = .ok later) :
    later.Pairs pen actors (events ++ [event]) := by
  cases event with
  | activation edge name =>
      cases edge with
      | start => exact hpairs.startActivation hdrawing (hfollow.rises name) hdraw
      | stop =>
          rw [← Except.ok.inj hdraw]
          exact hpairs.endActivation name
  | message | note | block => exact hpairs.plain nofun hdraw

theorem pairs_drawActors (pen : Pen ℚ) (actors : List Actor) :
    (drawActors pen actors : Drawing ℚ ExactEdge).Pairs pen actors [] := by
  obtain ⟨bounds, -, -, -, hdrawn⟩ := drawActors_eq pen actors
  rw [hdrawn]
  exact ⟨fun _ => .nil, nofun⟩

theorem pairs_drawAfter (hfollow : EndsFollowStarts events)
    (hdrawing : pen.drawAfter actors events = .ok drawing) : drawing.Pairs pen actors events := by
  refine Pen.drawAfter_induction (pairs_drawActors pen actors) ?_ hdrawing
  intro before event drawing later hbefore hdrawing hpairs hdraw
  have hearlier := hfollow.of_isPrefix ((List.prefix_append before [event]).trans hbefore)
  exact hpairs.draw hdrawing hearlier hdraw

theorem counts_drawAfter (hfollow : EndsFollowStarts events)
    (hdrawing : pen.drawAfter actors events = .ok drawing) : drawing.Counts events :=
  Pen.drawAfter_induction (motive := fun events drawing => drawing.Counts events)
    (counts_drawActors pen actors)
    (fun hbefore _ hcounts hdraw => hcounts.draw (hfollow _ hbefore) hdraw) hdrawing

theorem Pairs.depths_latestOf (hpairs : drawing.Pairs pen actors events)
    (hrises : (activationsOf name).Rises events) :
    (drawing.latestOf name).map OpenActivation.depth =
      (List.range (drawing.latestOf name).length).reverse := by
  have hbegun := hpairs.begun name
  have hdepths : (drawing.latestOf name).map OpenActivation.depth =
      ((activationsOf name).unclosed events).map (openDepth name) := by
    generalize (activationsOf name).unclosed events = stack at hbegun
    generalize drawing.latestOf name = latest at hbegun
    induction hbegun with
    | nil => rfl
    | cons hbegins _ ih =>
        obtain ⟨_, _, -, -, rfl⟩ := hbegins
        rw [List.map_cons, List.map_cons, ih]
        rfl
  rw [hdepths, ← hbegun.length_eq]
  exact Brackets.depths_unclosed hrises

theorem transitive_actor (first second third : OpenActivation ℚ)
    (hfirst : decide (first.actor ≤ second.actor) = true)
    (hsecond : decide (second.actor ≤ third.actor) = true) :
    decide (first.actor ≤ third.actor) = true :=
  decide_eq_true ((of_decide_eq_true hfirst).trans (of_decide_eq_true hsecond))

theorem total_actor (left right : OpenActivation ℚ) :
    (decide (left.actor ≤ right.actor) || decide (right.actor ≤ left.actor)) = true := by
  rw [Bool.or_eq_true, decide_eq_true_eq, decide_eq_true_eq]
  exact le_total left.actor right.actor

/-- The leftovers of an actor come in the order in which they have started. -/
theorem filter_leftovers (drawing : Drawing ℚ ExactEdge) (name : String) :
    drawing.leftovers.filter (·.actor = name) = drawing.openOf name := by
  have hall {activation : OpenActivation ℚ} (hmem : activation ∈ drawing.openOf name) :
      activation.actor = name := by
    rw [openOf_eq, List.mem_reverse] at hmem
    exact (mem_latestOf.mp hmem).2
  have hordered : (drawing.openOf name).Pairwise fun left right =>
      decide (left.actor ≤ right.actor) = true :=
    List.pairwise_of_forall_mem_list fun left hleft right hright =>
      decide_eq_true ((hall hleft).trans (hall hright).symm).le
  have hopen : drawing.openOf name = drawing.openActivations.reverse.filter (·.actor = name) :=
    List.filter_reverse.symm
  have hsublist : (drawing.openOf name).Sublist (drawing.leftovers.filter (·.actor = name)) := by
    have hkept := (List.sublist_mergeSort transitive_actor total_actor hordered
      (hopen ▸ List.filter_sublist)).filter (·.actor = name)
    rwa [List.filter_eq_self.mpr fun _ hmem => decide_eq_true (hall hmem)] at hkept
  refine (hsublist.eq_of_length ?_).symm
  rw [hopen]
  exact ((List.mergeSort_perm ..).filter _).length_eq.symm

/-- The leftovers come in the order of their actors, and of each actor in that of their depths. -/
theorem Pairs.pairwise_leftovers (hpairs : drawing.Pairs pen actors events)
    (hfollow : EndsFollowStarts events) : drawing.leftovers.Pairwise fun left right =>
      left.actor < right.actor ∨ left.actor = right.actor ∧ left.depth < right.depth := by
  rw [List.pairwise_iff_forall_sublist]
  intro left right hsublist
  have hactors := List.pairwise_iff_forall_sublist.mp
    (List.pairwise_mergeSort transitive_actor total_actor drawing.openActivations.reverse) hsublist
  rcases lt_or_eq_of_le (of_decide_eq_true hactors) with hless | hsame
  · exact .inl hless
  · refine .inr ⟨hsame, ?_⟩
    have hkept := hsublist.filter (·.actor = right.actor)
    rw [filter_leftovers, List.filter_eq_self.mpr (by simp [hsame])] at hkept
    have hrange := hkept.map OpenActivation.depth
    rw [openOf_eq, List.map_reverse, hpairs.depths_latestOf (hfollow.rises right.actor),
      List.reverse_reverse] at hrange
    exact List.pairwise_iff_forall_sublist.mp List.pairwise_lt_range hrange

theorem Pairs.mem_leftovers_iff (hpairs : drawing.Pairs pen actors events)
    (activation : OpenActivation ℚ) : activation ∈ drawing.leftovers ↔
      ∃ name before inside, events = before ++ .activation .start name :: inside ∧
        (activationsOf name).Rises inside ∧ pen.Begins actors name before activation := by
  rw [drawing.leftovers_perm.mem_iff]
  constructor
  · intro hmem
    have hlatest : activation ∈ drawing.latestOf activation.actor := mem_latestOf.mpr ⟨hmem, rfl⟩
    obtain ⟨before, hbefore, hbegins⟩ := (hpairs.begun activation.actor).exists_left hlatest
    obtain ⟨opening, inside, hevents, hopens, hrises⟩ := Brackets.exists_opening hbefore
    rw [opens_activationsOf_iff.mp hopens] at hevents
    exact ⟨activation.actor, before, inside, hevents, hrises, hbegins⟩
  · rintro ⟨name, before, inside, hevents, hrises, hbegins⟩
    have hbefore : before ∈ (activationsOf name).unclosed events :=
      Brackets.mem_unclosed_iff.mpr
        ⟨_, inside, hevents, opens_activationsOf_iff.mpr rfl, hrises⟩
    obtain ⟨other, hother, hbegun⟩ := (hpairs.begun name).flip.exists_left hbefore
    rw [hbegins.unique hbegun]
    exact (mem_latestOf.mp hother).1

theorem Pairs.standsIn_leftover (hpairs : drawing.Pairs pen actors events) (y : ℚ)
    (hmem : activation ∈ drawing.leftovers) :
    (OpenActivation.stop activation y).StandsIn (placeActors pen 0.0 0.0 actors)
      pen.settings.activationWidth := by
  obtain ⟨name, before, inside, -, -, hbegins⟩ := (hpairs.mem_leftovers_iff activation).mp hmem
  exact hbegins.standsIn activation.startY y

theorem Pairs.standsIn_ended (hpairs : drawing.Pairs pen actors events)
    {placed : PlacedActivation ℚ} (hmem : placed ∈ drawing.activations) :
    placed.StandsIn (placeActors pen 0.0 0.0 actors) pen.settings.activationWidth := by
  obtain ⟨name, before, began, cursor, hbegins, rfl⟩ := hpairs.ended placed hmem
  unfold finishActivation
  split
  · exact hbegins.standsIn _ _
  · exact hbegins.standsIn began.startY _

end Drawing

/-- An end takes the activation of the start that it belongs to. -/
theorem Diagram.exists_ended {diagram : Diagram} (hfollow : EndsFollowStarts diagram.events)
    {settings : Settings ℚ} {measurer : Measurer ℚ} {layout : Layout ℚ ExactEdge}
    (hlayout : diagram.layout settings measurer = .ok layout) {earlier later : List Event}
    (hevents : diagram.events = earlier ++ .activation .stop name :: later) :
    ∃ (pair : (activationsOf name).Pair diagram.events) (drawing : Drawing ℚ ExactEdge)
        (began : OpenActivation ℚ), pair.filled = earlier ∧
      (Pen.ofSettings settings measurer).drawAfter diagram.actors earlier = .ok drawing ∧
      drawing.openActivations.find? (·.actor = name) = some began ∧
      (Pen.ofSettings settings measurer).Begins diagram.actors name pair.before began ∧
      layout.activations[earlier.countP (Event.isEdge .stop)]? =
        some (Drawing.finishActivation began drawing.cursor) := by
  obtain ⟨drawing, ended, hdrawing, hdraw, -, hshown⟩ := Diagram.exists_draw hlayout hevents
  have hearlier := hfollow.of_isPrefix (hevents ▸ List.prefix_append earlier _)
  have hpairs := Drawing.pairs_drawAfter hearlier hdrawing
  have hopen : 0 < openDepth name earlier := by
    have hclosing := hfollow (earlier ++ [.activation .stop name])
      ⟨later, by rw [hevents, List.append_assoc, List.singleton_append]⟩ name
    have hedge : ActivationEdge.stop ≠ .start := nofun
    rw [edgeCount_append_same, edgeCount_append_other hedge, if_pos rfl] at hclosing
    unfold openDepth
    omega
  rw [← length_unclosed_activations (hearlier.rises name)] at hopen
  obtain ⟨before, stack, hunclosed⟩ := List.exists_cons_of_length_pos hopen
  obtain ⟨pair, -, rfl⟩ :=
    Brackets.exists_pair hevents (closes_activationsOf_iff.mpr rfl) hunclosed
  have hbegun := hpairs.begun name
  rw [pair.unclosed_filled] at hbegun
  obtain ⟨began, rest, hbegins, -, hlatest⟩ := List.forall₂_cons_left_iff.mp hbegun
  have hfound : drawing.openActivations.find? (·.actor = name) = some began := by
    rw [Drawing.find?_openActivations, hlatest]
    rfl
  refine ⟨pair, drawing, began, rfl, hdrawing, hfound, hbegins, ?_⟩
  obtain ⟨placed, hplaced, hended⟩ := Drawing.endActivation_of_find? hfound
  have hlast : ended.activations = drawing.activations ++ [placed] := by
    rw [← Except.ok.inj hdraw, hended]
    rfl
  rw [← (Drawing.counts_drawAfter hearlier hdrawing).ended, ← hplaced]
  exact getElem?_of_append_isPrefix (hlast ▸ hshown.activations)

/-- **Activations pair starts and ends.** A chart that is laid out has an activation for each start.
First come those that end, in the order of their ends: an end finds an open activation, the one of
the latest start of the actor that has not ended. Then come those that are left open, one for each
start that does not end, ordered by their actors and depths. Each stands at its actor, as deep as
the starts around its own lie. -/
theorem Chart.Built.activations_pair {chart : Chart} (hbuilt : chart.Built)
    {settings : Settings ℚ} {measurer : Measurer ℚ} {layout : Layout ℚ ExactEdge}
    (hlayout : chart.diagram.layout settings measurer = .ok layout) :
    layout.activations.length = chart.diagram.events.countP (Event.isEdge .start) ∧
      (∀ placed ∈ layout.activations,
        placed.StandsIn layout.actors settings.sequence.activationWidth) ∧
      (∀ earlier name later, chart.diagram.events = earlier ++ .activation .stop name :: later →
        ∃ (pair : (activationsOf name).Pair chart.diagram.events) (drawing : Drawing ℚ ExactEdge)
            (began : OpenActivation ℚ), pair.filled = earlier ∧
          (Pen.ofSettings settings measurer).drawAfter chart.diagram.actors earlier =
            .ok drawing ∧
          drawing.openActivations.find? (·.actor = name) = some began ∧
          (Pen.ofSettings settings measurer).Begins chart.diagram.actors name pair.before began ∧
          layout.activations[earlier.countP (Event.isEdge .stop)]? =
            some (Drawing.finishActivation began drawing.cursor)) ∧
      ∃ (drawing : Drawing ℚ ExactEdge) (left : List (OpenActivation ℚ)),
        (Pen.ofSettings settings measurer).drawAfter chart.diagram.actors chart.diagram.events =
          .ok drawing ∧
        layout.activations.drop (chart.diagram.events.countP (Event.isEdge .stop)) =
          left.map (Drawing.OpenActivation.stop · drawing.cursor) ∧
        left.Pairwise (fun first second => first.actor < second.actor ∨
          first.actor = second.actor ∧ first.depth < second.depth) ∧
        ∀ began, began ∈ left ↔ ∃ name before inside,
          chart.diagram.events = before ++ .activation .start name :: inside ∧
            (activationsOf name).Rises inside ∧
            (Pen.ofSettings settings measurer).Begins chart.diagram.actors name before began := by
  have hfollow := hbuilt.balanced.follow
  obtain ⟨drawing, hdrawing, hfinish⟩ := Diagram.exists_drawing hlayout
  have hpairs := Drawing.pairs_drawAfter hfollow hdrawing
  have hcounts := Drawing.counts_drawAfter hfollow hdrawing
  obtain ⟨hactors, -, -, -, hactivations, -⟩ := Drawing.finish_keeps hfinish
  rw [Drawing.stopActivations_activations] at hactivations
  refine ⟨?_, ?_, fun earlier name later hevents => Diagram.exists_ended hfollow hlayout hevents,
    drawing, drawing.leftovers, hdrawing, ?_, hpairs.pairwise_leftovers hfollow,
    hpairs.mem_leftovers_iff⟩
  · rw [hactivations, List.length_append, List.length_map, drawing.leftovers_perm.length_eq,
      Nat.add_comm]
    exact hcounts.started
  · rw [hactivations, hactors, Pen.actors_drawAfter hdrawing]
    refine List.forall_mem_append.mpr ⟨fun placed hmem => hpairs.standsIn_ended hmem, ?_⟩
    rintro placed hmem
    obtain ⟨opened, hopened, rfl⟩ := List.mem_map.mp hmem
    exact hpairs.standsIn_leftover _ hopened
  · rw [hactivations, ← hcounts.ended, List.drop_left]

/-- An actor that is activated twice, ends the inner activation and starts another one, while a
second actor is active all the time. -/
def restarted : Chart :=
  Chart.empty.operateAll
    [.edit (.activate "B"), .edit (.activate "A"), .edit (.activate "A"), .edit (.deactivate "A"),
      .edit (.activate "A")]

theorem built_restarted : restarted.Built :=
  Chart.Built.operateAll (.new .standard) _

theorem restarted_pair : ∃ layout : Layout ℚ ExactEdge,
    restarted.diagram.layout .exact Grid.standard.measurer = .ok layout ∧
      layout.activations.length = 4 ∧
      ∃ (pair : (activationsOf "A").Pair restarted.diagram.events) (drawing : Drawing ℚ ExactEdge)
          (began : OpenActivation ℚ),
        pair.before = [.activation .start "B", .activation .start "A"] ∧
        (Pen.ofSettings .exact Grid.standard.measurer).Begins restarted.diagram.actors "A"
          pair.before began ∧
        layout.activations[0]? = some (Drawing.finishActivation began drawing.cursor) := by
  obtain ⟨layout, hlayout⟩ : ∃ layout : Layout ℚ ExactEdge,
      restarted.diagram.layout .exact Grid.standard.measurer = .ok layout :=
    Diagram.layout_eq_ok built_restarted.balanced.registered rfl .exact Grid.standard.measurer
  obtain ⟨hlength, -, hended, -⟩ := built_restarted.activations_pair hlayout
  have hstarts : restarted.diagram.events.countP (Event.isEdge .start) = 4 := by decide +kernel
  have hevents : restarted.diagram.events =
      [.activation .start "B", .activation .start "A", .activation .start "A"] ++
        .activation .stop "A" :: [.activation .start "A"] := by decide +kernel
  obtain ⟨pair, drawing, began, hfilled, -, -, hbegins, hplaced⟩ := hended _ _ _ hevents
  have hunclosed : (activationsOf "A").unclosed
      [.activation .start "B", .activation .start "A", .activation .start "A"] =
        [[.activation .start "B", .activation .start "A"], [.activation .start "B"]] := by
    decide +kernel
  rw [← hfilled, pair.unclosed_filled] at hunclosed
  exact ⟨layout, hlayout, hlength.trans hstarts, pair, drawing, began,
    (List.cons.inj hunclosed).1, hbegins, hplaced⟩

end SequenceChart
