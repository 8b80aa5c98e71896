import Mathlib.Tactic.Ring
import SequenceChart.Proofs.Pairing

/-!
# Where messages leave and arrive

The activations of an actor widen its line, and a message goes from the one line to the other on the
sides that face each other. Which of the two stands further left is told by the left ends of the
lines. As long as an activation is not too wide for the row, that is the order in which the actors
are registered.
-/

namespace SequenceChart

/-- The line of an actor inside of `depth` activations. The first of them reaches half a width to
both sides, and each further one half a width more to the right. -/
def PlacedActor.lineAt (actor : PlacedActor ℚ) (width : ℚ) (depth : ℕ) : ℚ × ℚ :=
  (if 0 < depth then actor.center - width / 2 else actor.center, actor.center + depth * width / 2)

theorem foldl_min_starts {width : ℚ} (hwidth : 0 ≤ width) (center : ℚ) (depth : ℕ) :
    ((List.range depth).map fun inside : ℕ => center + (inside - 1) * width / 2).foldl min center =
      if 0 < depth then center - width / 2 else center := by
  induction depth with
  | zero => rfl
  | succ depth ih =>
      rw [List.range_succ, List.map_append, List.foldl_append, ih, if_pos (Nat.succ_pos depth)]
      have hdepth : 0 ≤ (depth : ℚ) * width := mul_nonneg (Nat.cast_nonneg depth) hwidth
      split
      · exact min_eq_left (by linarith)
      · rename_i hnone
        obtain rfl : depth = 0 := Nat.eq_zero_of_not_pos hnone
        have hfirst : center + ((0 : ℕ) - 1) * width / 2 = center - width / 2 := by
          rw [Nat.cast_zero]
          ring
        exact (congrArg (min center) hfirst).trans (min_eq_right (by linarith))

theorem foldl_max_stops {width : ℚ} (hwidth : 0 ≤ width) (center : ℚ) (depth : ℕ) :
    ((List.range depth).map fun inside : ℕ =>
      center + (inside - 1) * width / 2 + width).foldl max center =
        center + depth * width / 2 := by
  induction depth with
  | zero => simp
  | succ depth ih =>
      rw [List.range_succ, List.map_append, List.foldl_append, ih]
      have hlast : center + ((depth : ℚ) - 1) * width / 2 + width =
          center + (depth + 1 : ℕ) * width / 2 := by
        rw [Nat.cast_succ]
        ring
      refine (congrArg (max _) hlast).trans (max_eq_right ?_)
      rw [Nat.cast_succ]
      linarith

namespace Drawing

variable {drawing : Drawing ℚ ExactEdge} {pen : Pen ℚ} {actors : List Actor}
  {events : List Event} {name : String} {actor : PlacedActor ℚ}

/-- The open activations of an actor stand side by side at its line. -/
theorem Pairs.spans_openOf (hpairs : drawing.Pairs pen actors events)
    (hdrawing : pen.drawAfter actors events = .ok drawing)
    (hrises : (activationsOf name).Rises events) (hactor : drawing.actor name = .ok actor) :
    (drawing.openOf name).map (fun activation => (activation.startX, activation.stopX)) =
      (List.range (openDepth name events)).map fun inside : ℕ =>
        (actor.center + (inside - 1) * pen.settings.activationWidth / 2,
          actor.center + (inside - 1) * pen.settings.activationWidth / 2 +
            pen.settings.activationWidth) := by
  have hfound := actor_eq_ok_iff.mp hactor
  rw [Pen.actors_drawAfter hdrawing] at hfound
  have hdepths : List.range (openDepth name events) =
      (drawing.openOf name).map OpenActivation.depth := by
    rw [openOf_eq, List.map_reverse, hpairs.depths_latestOf hrises, List.reverse_reverse,
      ← (hpairs.begun name).length_eq, length_unclosed_activations hrises]
  rw [hdepths, List.map_map]
  refine List.map_congr_left fun activation hmem => ?_
  rw [openOf_eq, List.mem_reverse] at hmem
  obtain ⟨before, -, hbegins⟩ := (hpairs.begun name).exists_left hmem
  obtain ⟨other, hother, hstart, hstop⟩ := hbegins.standsIn activation.startY activation.startY
  have hname : activation.actor = name := (mem_latestOf.mp hmem).2
  rw [show (OpenActivation.stop activation activation.startY).actor = name from hname,
    hfound] at hother
  obtain rfl := Option.some.inj hother
  exact Prod.ext hstart (hstop.trans (congrArg (· + _) hstart))

theorem Pairs.lineSpan_eq (hpairs : drawing.Pairs pen actors events)
    (hdrawing : pen.drawAfter actors events = .ok drawing)
    (hrises : (activationsOf name).Rises events)
    (hactivationWidth : 0 ≤ pen.settings.activationWidth)
    (hactor : drawing.actor name = .ok actor) :
    drawing.lineSpan name =
      .ok (actor.lineAt pen.settings.activationWidth (openDepth name events)) := by
  have hspans := hpairs.spans_openOf hdrawing hrises hactor
  have hstarts := congrArg (List.map Prod.fst) hspans
  have hstops := congrArg (List.map Prod.snd) hspans
  rw [List.map_map, List.map_map] at hstarts hstops
  refine Except.bind_eq_ok.mpr ⟨actor, hactor, congrArg Except.ok (Prod.ext ?_ ?_)⟩
  · calc
      (drawing.openOf name).foldl (fun left activation => min left activation.startX)
          actor.center = ((drawing.openOf name).map OpenActivation.startX).foldl min actor.center :=
        List.foldl_map.symm
      _ = _ := (congrArg (List.foldl min actor.center) hstarts).trans
        (foldl_min_starts hactivationWidth _ _)
  · calc
      (drawing.openOf name).foldl (fun right activation => max right activation.stopX)
          actor.center = ((drawing.openOf name).map OpenActivation.stopX).foldl max actor.center :=
        List.foldl_map.symm
      _ = _ := (congrArg (List.foldl max actor.center) hstops).trans
        (foldl_max_stops hactivationWidth _ _)

end Drawing

/-- The row has room for the activations: the first one of an actor does not reach as far as the
middle of the next actor. -/
structure SequenceSettings.Roomy (settings : SequenceSettings ℚ) : Prop where
  width : 0 ≤ settings.width
  actorMargin : 0 ≤ settings.actorMargin
  activationWidth : 0 ≤ settings.activationWidth
  reach : settings.activationWidth / 2 < settings.width + settings.actorMargin

theorem lineAt_le_center (actor : PlacedActor ℚ) {width : ℚ} (hwidth : 0 ≤ width) (depth : ℕ) :
    actor.center - width / 2 ≤ (actor.lineAt width depth).1 ∧
      (actor.lineAt width depth).1 ≤ actor.center := by
  unfold PlacedActor.lineAt
  dsimp only
  split <;> constructor <;> linarith

/-- An arrow goes to the right if its source begins further left, and to the left otherwise. -/
theorem arrowSpan_eq {source target : ℚ × ℚ} :
    (source.1 < target.1 → Drawing.arrowSpan source target = (source.2, target.1)) ∧
      (target.1 ≤ source.1 → Drawing.arrowSpan source target = (source.1, target.2)) := by
  unfold Drawing.arrowSpan
  exact ⟨fun hless => if_pos (decide_eq_true hless),
    fun hle => if_neg (mt of_decide_eq_true (not_lt.mpr hle))⟩

namespace Drawing

variable {drawing later : Drawing ℚ ExactEdge} {pen : Pen ℚ} {y x : ℚ} {actors : List Actor}
  {events : List Event}

/-- The line of an actor that is registered earlier begins further left. -/
theorem lineAt_lt (hpen : pen.settings.Roomy) {first second : String} {left right : PlacedActor ℚ}
    (hleft : (placeActors pen y x actors).find? (·.name = first) = some left)
    (hright : (placeActors pen y x actors).find? (·.name = second) = some right)
    (hbefore : (actors.map Actor.name).idxOf first < (actors.map Actor.name).idxOf second)
    (leftDepth rightDepth : ℕ) :
    (left.lineAt pen.settings.activationWidth leftDepth).1 <
      (right.lineAt pen.settings.activationWidth rightDepth).1 := by
  rw [← findIdx_placeActors pen y x, ← findIdx_placeActors pen y x] at hbefore
  have hapart :=
    (pairwise_placeActors hpen.width hpen.actorMargin actors).of_find? hleft hright hbefore
  have hleftWidth := width_le_of_mem_placeActors (List.mem_of_find?_eq_some hleft)
  have hrightWidth := width_le_of_mem_placeActors (List.mem_of_find?_eq_some hright)
  have hcenters : left.center + pen.settings.activationWidth / 2 < right.center := by
    have hreach := hpen.reach
    change left.x + left.width / 2.0 + _ < right.x + right.width / 2.0
    norm_num
    linarith
  have hleftLine := (lineAt_le_center left hpen.activationWidth leftDepth).2
  have hrightLine := (lineAt_le_center right hpen.activationWidth rightDepth).1
  linarith

/-- Which ends of the lines a message connects. -/
theorem Pairs.drawMessage (hpairs : drawing.Pairs pen actors events)
    (hdrawing : pen.drawAfter actors events = .ok drawing) (hfollow : EndsFollowStarts events)
    (hpen : pen.settings.Roomy) {message : Message}
    (hdraw : drawing.drawMessage pen message = .ok later) :
    ∃ source target placed, drawing.actors.find? (·.name = message.source) = some source ∧
      drawing.actors.find? (·.name = message.target) = some target ∧
      later.messages = drawing.messages ++ [placed] ∧
      ((actors.map Actor.name).idxOf message.source < (actors.map Actor.name).idxOf message.target →
        placed.startX = (source.lineAt pen.settings.activationWidth
          (openDepth message.source events)).2 ∧
        placed.stopX = (target.lineAt pen.settings.activationWidth
          (openDepth message.target events)).1) ∧
      ((actors.map Actor.name).idxOf message.target < (actors.map Actor.name).idxOf message.source ∨
          message.source = message.target →
        placed.startX = (source.lineAt pen.settings.activationWidth
          (openDepth message.source events)).1 ∧
        placed.stopX = (target.lineAt pen.settings.activationWidth
          (openDepth message.target events)).2) := by
  obtain ⟨sourceLine, targetLine, text, down, box, hsourceLine, htargetLine, -, rfl⟩ :=
    drawMessage_eq_ok hdraw
  obtain ⟨source, hsource, -⟩ := Except.bind_eq_ok.mp hsourceLine
  obtain ⟨target, htarget, -⟩ := Except.bind_eq_ok.mp htargetLine
  obtain rfl := Except.ok.inj (hsourceLine.symm.trans
    (hpairs.lineSpan_eq hdrawing (hfollow.rises _) hpen.activationWidth hsource))
  obtain rfl := Except.ok.inj (htargetLine.symm.trans
    (hpairs.lineSpan_eq hdrawing (hfollow.rises _) hpen.activationWidth htarget))
  have hsource : drawing.actors.find? (·.name = message.source) = some source :=
    actor_eq_ok_iff.mp hsource
  have htarget : drawing.actors.find? (·.name = message.target) = some target :=
    actor_eq_ok_iff.mp htarget
  refine ⟨source, target, _, hsource, htarget, rfl, ?_, ?_⟩
  · intro hbefore
    rw [Pen.actors_drawAfter hdrawing] at hsource htarget
    rw [messageAt, arrowSpan_eq.1 (lineAt_lt hpen hsource htarget hbefore _ _)]
    exact ⟨rfl, rfl⟩
  · intro hafter
    rw [Pen.actors_drawAfter hdrawing] at hsource htarget
    rw [messageAt, arrowSpan_eq.2]
    · exact ⟨rfl, rfl⟩
    · rcases hafter with hafter | hself
      · exact (lineAt_lt hpen htarget hsource hafter _ _).le
      · rw [hself] at hsource ⊢
        rw [Option.some.inj (hsource.symm.trans htarget)]

end Drawing

/-- **Where messages leave and arrive.** If the row has room for the activations, a message to an
actor that is registered later goes from the right end of the line of its source to the left end of
the line of its target. To an actor that is registered earlier, or to its own one, it goes from the
left end to the right one. The lines are as wide as the activations make them that start before the
message and have not ended. -/
theorem Chart.Built.message_endpoints {chart : Chart} (hbuilt : chart.Built)
    {settings : Settings ℚ} (hsettings : settings.sequence.Roomy) {measurer : Measurer ℚ}
    {layout : Layout ℚ ExactEdge} (hlayout : chart.diagram.layout settings measurer = .ok layout)
    {earlier later : List Event} {message : Message}
    (hevents : chart.diagram.events = earlier ++ .message message :: later) :
    ∃ source target placed,
      layout.actors.find? (·.name = message.source) = some source ∧
      layout.actors.find? (·.name = message.target) = some target ∧
      layout.messages[earlier.countP Event.isMessage]? = some placed ∧
      (chart.diagram.names.idxOf message.source < chart.diagram.names.idxOf message.target →
        placed.startX = (source.lineAt settings.sequence.activationWidth
          (openDepth message.source earlier)).2 ∧
        placed.stopX = (target.lineAt settings.sequence.activationWidth
          (openDepth message.target earlier)).1) ∧
      (chart.diagram.names.idxOf message.target < chart.diagram.names.idxOf message.source ∨
          message.source = message.target →
        placed.startX = (source.lineAt settings.sequence.activationWidth
          (openDepth message.source earlier)).1 ∧
        placed.stopX = (target.lineAt settings.sequence.activationWidth
          (openDepth message.target earlier)).2) := by
  obtain ⟨drawing, sent, hdrawing, hdraw, -, hshown⟩ := Diagram.exists_draw hlayout hevents
  have hfollow := hbuilt.balanced.follow.of_isPrefix (hevents ▸ List.prefix_append earlier _)
  obtain ⟨source, target, placed, hsource, htarget, hmessages, hends⟩ :=
    (Drawing.pairs_drawAfter hfollow hdrawing).drawMessage hdrawing hfollow hsettings hdraw
  have hrow : layout.actors = drawing.actors :=
    hshown.actors.trans (Drawing.extends_draw hdraw).actors
  have hplaced : layout.messages[earlier.countP Event.isMessage]? = some placed := by
    rw [← (Pen.shows_drawAfter hdrawing).length_messages]
    exact getElem?_of_append_isPrefix (hmessages ▸ hshown.messages)
  rw [hrow]
  exact ⟨source, target, placed, hsource, htarget, hplaced, hends⟩

theorem Settings.roomy_exact : Settings.exact.sequence.Roomy := by
  constructor <;> norm_num [Settings.exact]

/-- A question, and an answer that comes from an activation. -/
def answered : Chart :=
  Chart.empty.operateAll
    [.edit (.addMessage "A" "B" .solid "ask"), .edit (.activate "B"),
      .edit (.addMessage "B" "A" .solid "tell")]

theorem built_answered : answered.Built :=
  Chart.Built.operateAll (.new .standard) _

theorem answered_endpoints : ∃ layout : Layout ℚ ExactEdge,
    answered.diagram.layout .exact Grid.standard.measurer = .ok layout ∧
      ∃ source target placed, layout.actors.find? (·.name = "B") = some source ∧
        layout.actors.find? (·.name = "A") = some target ∧ layout.messages[1]? = some placed ∧
        placed.startX = source.center - 5 ∧ placed.stopX = target.center := by
  obtain ⟨layout, hlayout⟩ : ∃ layout : Layout ℚ ExactEdge,
      answered.diagram.layout .exact Grid.standard.measurer = .ok layout :=
    Diagram.layout_eq_ok built_answered.balanced.registered rfl .exact Grid.standard.measurer
  have hevents : answered.diagram.events =
      [.message ⟨.solid, "A", "B", "ask", false, none⟩, .activation .start "B"] ++
        .message ⟨.solid, "B", "A", "tell", false, none⟩ :: [] := by decide +kernel
  obtain ⟨source, target, placed, hsource, htarget, hplaced, -, hends⟩ :=
    built_answered.message_endpoints Settings.roomy_exact hlayout hevents
  obtain ⟨hstart, hstop⟩ := hends (.inl (by decide +kernel))
  have hsourceDepth : openDepth "B"
      [.message ⟨.solid, "A", "B", "ask", false, none⟩, .activation .start "B"] = 1 := by
    decide +kernel
  have htargetDepth : openDepth "A"
      [.message ⟨.solid, "A", "B", "ask", false, none⟩, .activation .start "B"] = 0 := by
    decide +kernel
  refine ⟨layout, hlayout, source, target, placed, hsource, htarget, hplaced, ?_, ?_⟩
  · rw [hstart, hsourceDepth]
    norm_num [PlacedActor.lineAt, Settings.exact]
  · rw [hstop, htargetDepth]
    norm_num [PlacedActor.lineAt]

end SequenceChart
