import SequenceChart.Proofs.Scopes

/-!
# What bounds report

What bounds report can be told from the steps alone. A scope spans the line at which it was opened,
the boxes inserted while it was open and the scopes closed directly inside it; the whole spans all
boxes, the scopes closed outside of all others, and the positions down to which the cursor was
advanced.
-/

namespace SequenceChart

open BoundsStep

namespace Bounds

variable {bounds : ExactBounds} {inner : ExactScope} {outer : List ExactScope}
  {steps others inside : List BoundsStep}

/-- What reaches the whole in a run. -/
def parts (bounds : ExactBounds) (steps : List BoundsStep) : List (Box ExactEdge) :=
  insertedBoxes steps ++ (bounds.closingsAt 0 steps).map Scope.extent ++
    (bounds.advances steps).map Box.bottomAt

theorem hull_parts_cons (bounds : ExactBounds) (step : BoundsStep) (rest : List BoundsStep) :
    Box.hull (bounds.parts (step :: rest)) =
      Box.hull (bounds.parts [step]) ⊔ Box.hull ((bounds.step step).parts rest) := by
  have hboxes : insertedBoxes (step :: rest) = insertedBoxes [step] ++ insertedBoxes rest :=
    insertedBoxes_append [step] rest
  have hclosings : bounds.closingsAt 0 (step :: rest) =
      bounds.closingsAt 0 [step] ++ (bounds.step step).closingsAt 0 rest :=
    observe_append _ bounds [step] rest
  have hadvances : bounds.advances (step :: rest) =
      bounds.advances [step] ++ (bounds.step step).advances rest :=
    observe_append _ bounds [step] rest
  simp only [parts, hboxes, hclosings, hadvances, List.map_append, Box.hull_append]
  ac_rfl

/-- A step that closes no scope adds the box that it inserts or the edge that it advances to. -/
theorem parts_singleton {step : BoundsStep} (hclosed : bounds.closed? step = none) :
    bounds.parts [step] = insertedBoxes [step] ++ (bounds.advances [step]).map Box.bottomAt := by
  simp [parts, closingsAt, observe, hclosed]

theorem parts_closeScope (hscopes : bounds.scopes = inner :: outer) :
    bounds.parts [.closeScope] =
      if outer = [] then [(inner.widen bounds.margin).extent] else [] := by
  have hboxes : insertedBoxes [.closeScope] = [] := rfl
  cases outer <;>
    simp [parts, closingsAt, advances, observe, hboxes, depth_closeScope_of_cons hscopes,
      closed?_closeScope_of_cons hscopes]

theorem whole_step {step : BoundsStep} (hstep : step ≠ .restart) (bounds : ExactBounds) :
    (bounds.step step).whole = bounds.whole ⊔ Box.hull (bounds.parts [step]) := by
  cases step with
  | restart => exact absurd rfl hstep
  | insert x1 y1 x2 y2 =>
      rw [parts_singleton rfl]
      exact congrArg (bounds.whole ⊔ ·) (sup_bot_eq _).symm
  | openScope | moveTo =>
      rw [parts_singleton rfl]
      exact (sup_bot_eq _).symm
  | closeScope =>
      cases hscopes : bounds.scopes with
      | nil =>
          have hnone := closeScope?_eq_none_iff.mpr hscopes
          rw [parts_singleton (by rw [closed?, hnone]; rfl), Bounds.step, hnone]
          exact (sup_bot_eq _).symm
      | cons inner outer =>
          rw [parts_closeScope hscopes, step_closeScope_of_cons hscopes, includeInner]
          cases outer with
          | nil => exact congrArg (bounds.whole ⊔ ·) (sup_bot_eq _).symm
          | cons => exact (sup_bot_eq _).symm
  | addSection =>
      have hwhole : (bounds.addSection?.getD bounds).whole = bounds.whole := by
        unfold addSection?
        split <;> rfl
      rw [parts_singleton rfl, Bounds.step, hwhole]
      exact (sup_bot_eq _).symm
  | advance distance =>
      rw [parts_singleton rfl]
      calc
        (bounds.step (.advance distance)).whole =
            bounds.whole ⊔ Box.bottomAt (bounds.cursor + distance) :=
          (Box.sup_bottomAt _ _).symm
        _ = bounds.whole ⊔ (Box.bottomAt (bounds.cursor + distance) ⊔ ⊥) := by rw [sup_bot_eq]

theorem whole_run (hsteps : .restart ∉ steps) (bounds : ExactBounds) :
    (bounds.run steps).whole = bounds.whole ⊔ Box.hull (bounds.parts steps) := by
  induction steps generalizing bounds with
  | nil => exact (sup_bot_eq _).symm
  | cons step rest ih =>
      have hstep : step ≠ .restart := fun hstep => hsteps (hstep ▸ List.mem_cons_self)
      rw [run_cons, ih (fun hmem => hsteps (List.mem_cons_of_mem _ hmem)), whole_step hstep,
        sup_assoc, ← hull_parts_cons]

theorem restart_notMem_sinceRestart (steps : List BoundsStep) : .restart ∉ sinceRestart steps := by
  induction steps using List.reverseRecOn with
  | nil => exact List.not_mem_nil
  | append_singleton steps step ih =>
      rw [sinceRestart, List.foldl_append]
      cases step with
      | restart => exact List.not_mem_nil
      | insert | openScope | closeScope | addSection | moveTo | advance =>
          rw [List.foldl_cons, List.foldl_nil, List.mem_append, List.mem_singleton]
          rintro (hmem | hmem)
          · exact ih hmem
          · cases hmem

/-- A restart forgets what came before it. -/
theorem run_sinceRestart (margin : ℚ) (steps : List BoundsStep) :
    (start margin).run (sinceRestart steps) = (start margin).run steps := by
  induction steps using List.reverseRecOn with
  | nil => rfl
  | append_singleton steps step ih =>
      rw [run_append, sinceRestart, List.foldl_append]
      cases step with
      | restart => exact congrArg start (margin_run (start margin) steps).symm
      | insert | openScope | closeScope | addSection | moveTo | advance =>
          rw [← ih]
          exact run_append _ _ _

theorem closings_nested {last : ExactScope} {around : List ExactScope}
    (hlast : ((bounds.step .openScope).run inside).scopes = last :: around)
    (rest : List BoundsStep) :
    bounds.closings (.openScope :: (inside ++ .closeScope :: rest)) =
      (bounds.step .openScope).closings inside ++ last.widen bounds.margin ::
        (((bounds.step .openScope).run inside).step .closeScope).closings rest := by
  have hmargin : ((bounds.step .openScope).run inside).margin = bounds.margin := by
    rw [margin_run, margin_step]
  simp only [closings, observe, observe_append, closed?_closeScope_of_cons hlast, hmargin]
  rfl

/-- Unless the margin shrinks boxes, a scope that is closed deeper inside lies in one that is closed
directly inside. -/
theorem closings_le (hsteps : Balanced steps) (hmargin : 0 ≤ bounds.margin) {closed : ExactScope}
    (hclosed : closed ∈ bounds.closings steps) :
    closed.extent ≤ Box.hull ((bounds.closingsAt bounds.depth steps).map Scope.extent) := by
  induction hsteps generalizing bounds with
  | nil => cases hclosed
  | @plain step rest hstays _ ih =>
      have hrest : closed ∈ (bounds.step step).closings rest := by
        rw [closings, observe, closed?_of_stays hstays] at hclosed
        exact hclosed
      have hle := ih (by rwa [margin_step]) hrest
      rwa [depth_step hstays, ← closingsAt_cons_of_stays hstays] at hle
  | @nested inside rest hinside _ ihInside ih =>
      have hlast := scopes_run hinside (scopes_openScope bounds)
      have hdepth : (((bounds.step .openScope).run inside).step .closeScope).depth =
          bounds.depth := by
        rw [depth_closeScope_of_cons hlast, List.length_map, depth]
      rw [closings_nested hlast, List.mem_append, List.mem_cons] at hclosed
      rw [closingsAt_nested hinside hlast, List.map_cons, Box.hull_cons]
      rcases hclosed with hdeeper | rfl | hlater
      · refine le_sup_of_le_left ((ihInside (by rwa [margin_step]) hdeeper).trans ?_)
        refine le_trans ?_ (Box.le_expand _ hmargin)
        rw [Scope.grow, Box.hull_append]
        exact le_sup_of_le_right le_sup_right
      · exact le_sup_left
      · have hle := ih (by rwa [margin_step, margin_run, margin_step]) hlater
        rw [hdepth] at hle
        exact le_sup_of_le_right hle

theorem Covers.step {box : Box ExactEdge} (hcovers : bounds.Covers box)
    (hmargin : 0 ≤ bounds.margin) {step : BoundsStep} (hstep : step ≠ .restart) :
    (bounds.step step).Covers box := by
  cases step with
  | restart => exact absurd rfl hstep
  | insert => exact hcovers.insert _
  | openScope => exact hcovers.openScope
  | closeScope =>
      rw [Bounds.step]
      cases hclose : bounds.closeScope? with
      | none => exact hcovers
      | some result => exact hcovers.closeScope hmargin hclose
  | addSection => exact hcovers.addSection
  | moveTo => exact hcovers
  | advance distance => exact hcovers.advance distance

theorem Covers.run {box : Box ExactEdge} (hcovers : bounds.Covers box)
    (hmargin : 0 ≤ bounds.margin) (hsteps : .restart ∉ steps) : (bounds.run steps).Covers box := by
  induction steps generalizing bounds with
  | nil => exact hcovers
  | cons step rest ih =>
      have hstep : step ≠ .restart := fun hstep => hsteps (hstep ▸ List.mem_cons_self)
      exact ih (hcovers.step hmargin hstep) (by rwa [margin_step])
        fun hmem => hsteps (List.mem_cons_of_mem _ hmem)

theorem covers_step {step : BoundsStep} {closed : ExactScope}
    (hclosed : bounds.closed? step = some closed) : (bounds.step step).Covers closed.extent := by
  cases step with
  | closeScope =>
      obtain ⟨⟨closed, rest⟩, hclose, rfl⟩ := Option.map_eq_some_iff.mp hclosed
      rw [Bounds.step, hclose]
      exact covers_closed hclose
  | restart | insert | openScope | addSection | moveTo | advance => cases hclosed

theorem covers_closings (hmargin : 0 ≤ bounds.margin) (hsteps : .restart ∉ steps)
    {closed : ExactScope} (hclosed : closed ∈ bounds.closings steps) :
    (bounds.run steps).Covers closed.extent := by
  induction steps generalizing bounds with
  | nil => cases hclosed
  | cons step rest ih =>
      have hrest : .restart ∉ rest := fun hmem => hsteps (List.mem_cons_of_mem _ hmem)
      rw [closings, observe, List.mem_append, Option.mem_toList] at hclosed
      rcases hclosed with hfirst | hlater
      · exact (covers_step hfirst).run (by rwa [margin_step]) hrest
      · exact ih (by rwa [margin_step]) hrest hlater

/-! ### The order of insertions

A join does not depend on the order of what is joined, and advancing moves nothing but the cursor
and the lower edge of the whole. So an insertion can be put off past every step that stays in its
scope. -/

theorem insert_insert (bounds : ExactBounds) (box other : Box ExactEdge) :
    (bounds.insert box).insert other = (bounds.insert other).insert box := by
  have hbox (whole : Box ExactEdge) : (whole.join box).join other = (whole.join other).join box :=
    sup_right_comm whole box other
  simp [Bounds.insert, Scope.include, hbox]

theorem insert_advance (bounds : ExactBounds) (box : Box ExactEdge) (distance : ℚ) :
    (bounds.insert box).advance distance = (bounds.advance distance).insert box := by
  have hstop : max (max bounds.whole.stopY box.stopY) (place (bounds.cursor + distance)) =
      max (max bounds.whole.stopY (place (bounds.cursor + distance))) box.stopY :=
    max_right_comm _ _ _
  exact congrArg (fun stopY : ExactEdge =>
    ({ margin := bounds.margin
       cursor := bounds.cursor + distance
       whole := { bounds.whole.join box with stopY }
       scopes := bounds.scopes.map (·.include box) } : ExactBounds)) hstop

theorem insert_addSection (bounds : ExactBounds) (box : Box ExactEdge) :
    (bounds.insert box).step .addSection = (bounds.step .addSection).insert box := by
  cases hscopes : bounds.scopes <;>
    simp [Bounds.step, addSection?, Bounds.insert, hscopes, Scope.include]

/-- Where no scope is opened or closed, it does not matter when a box is inserted. -/
theorem insert_step {step : BoundsStep} (hstays : step.staysInScope = true) (bounds : ExactBounds)
    (box : Box ExactEdge) : (bounds.insert box).step step = (bounds.step step).insert box := by
  cases step with
  | insert x1 y1 x2 y2 => exact insert_insert bounds box _
  | addSection => exact insert_addSection bounds box
  | moveTo => rfl
  | advance distance => exact insert_advance bounds box distance
  | restart | openScope | closeScope => cases hstays

theorem closings_cons_of_stays {step : BoundsStep} (hstays : step.staysInScope = true)
    (bounds : ExactBounds) (rest : List BoundsStep) :
    bounds.closings (step :: rest) = (bounds.step step).closings rest := by
  rw [closings, observe, closed?_of_stays hstays]
  rfl

theorem run_reorders (hreorders : Reorders steps others) (bounds : ExactBounds) :
    bounds.run steps = bounds.run others ∧ bounds.closings steps = bounds.closings others := by
  induction hreorders generalizing bounds with
  | refl => exact ⟨rfl, rfl⟩
  | symm _ ih => exact ⟨(ih bounds).1.symm, (ih bounds).2.symm⟩
  | trans _ _ ih ih' =>
      exact ⟨(ih bounds).1.trans (ih' bounds).1, (ih bounds).2.trans (ih' bounds).2⟩
  | cons step _ ih =>
      obtain ⟨hrun, hclosings⟩ := ih (bounds.step step)
      exact ⟨hrun, congrArg (_ ++ ·) hclosings⟩
  | @swap x1 y1 x2 y2 step rest hstays =>
      have hcomm : (bounds.step (.insert x1 y1 x2 y2)).step step =
          (bounds.step step).step (.insert x1 y1 x2 y2) := insert_step hstays bounds _
      have hinsert : (BoundsStep.insert x1 y1 x2 y2).staysInScope = true := rfl
      rw [closings_cons_of_stays hinsert, closings_cons_of_stays hstays,
        closings_cons_of_stays hstays, closings_cons_of_stays hinsert, run_cons, run_cons, hcomm]
      exact ⟨rfl, rfl⟩
  | flipX x1 y1 x2 y2 rest =>
      rw [closings_cons_of_stays rfl, closings_cons_of_stays rfl, run_cons, run_cons, Bounds.step,
        Bounds.step, Box.ofCorners_flipX]
      exact ⟨rfl, rfl⟩
  | flipY x1 y1 x2 y2 rest =>
      rw [closings_cons_of_stays rfl, closings_cons_of_stays rfl, run_cons, run_cons, Bounds.step,
        Bounds.step, Box.ofCorners_flipY]
      exact ⟨rfl, rfl⟩

/-- What is told of a scope that has just been opened, when it is closed after the steps inside. -/
structure Tells (margin : ℚ) (opened : ExactBounds) (inside : List BoundsStep)
    (closed : ExactScope) : Prop where
  openedAt : closed.openedAt = opened.cursor
  sections : closed.sections = opened.sectionsAt opened.depth inside
  extent : closed.extent = (Box.hull (Box.lineAt opened.cursor ::
    (insertedBoxes inside ++
      (opened.closingsAt opened.depth inside).map Scope.extent))).expand margin
  /-- The scopes closed deeper inside may be counted too, unless the margin shrinks boxes. -/
  extent_of_nonneg : 0 ≤ margin →
    closed.extent = (Box.hull (Box.lineAt opened.cursor ::
      (insertedBoxes inside ++ (opened.closings inside).map Scope.extent))).expand margin

/-- A scope that is closed directly inside is closed inside. -/
theorem mem_closings {depth : Nat} {closed : ExactScope}
    (hclosed : closed ∈ bounds.closingsAt depth steps) : closed ∈ bounds.closings steps := by
  induction steps generalizing bounds with
  | nil => cases hclosed
  | cons step rest ih =>
      rw [closingsAt, observe, List.mem_append] at hclosed
      rw [closings, observe, List.mem_append]
      rcases hclosed with hfirst | hlater
      · split at hfirst
        · exact .inl hfirst
        · cases hfirst
      · exact .inr (ih hlater)

/-- The hull stays the same with more boxes that lie in it. -/
theorem hull_closings (bounds : ExactBounds) (steps : List BoundsStep) (depth : Nat)
    (boxes : List (Box ExactEdge)) (hclosings : ∀ closed ∈ bounds.closings steps,
      closed.extent ≤ Box.hull (boxes ++ (bounds.closingsAt depth steps).map Scope.extent)) :
    Box.hull (boxes ++ (bounds.closings steps).map Scope.extent) =
      Box.hull (boxes ++ (bounds.closingsAt depth steps).map Scope.extent) := by
  apply le_antisymm
  · rw [Box.hull_append]
    refine sup_le (by rw [Box.hull_append]; exact le_sup_left) (Box.hull_le fun box hbox => ?_)
    obtain ⟨closed, hclosed, rfl⟩ := List.mem_map.mp hbox
    exact hclosings closed hclosed
  · rw [Box.hull_append, Box.hull_append]
    refine sup_le_sup_left (Box.hull_le fun box hbox => ?_) _
    obtain ⟨closed, hclosed, rfl⟩ := List.mem_map.mp hbox
    exact Box.le_hull (List.mem_map_of_mem (mem_closings hclosed))

theorem tells_of_leavesOpen {before : List BoundsStep} {margin : ℚ}
    (hopen : LeavesOpen steps before inside) :
    ∃ closed rest, ((start margin).run steps).closeScope? = some (closed, rest) ∧
      rest.depth + 1 = ((start margin).run steps).depth ∧
      Tells margin ((start margin).run (before ++ [.openScope])) inside closed := by
  generalize hopened : (start margin).run (before ++ [.openScope]) = opened
  obtain ⟨outer, hscopes⟩ := scopes_of_leavesOpen hopen (start margin) hopened.symm
  refine ⟨_, _, closeScope?_eq hscopes, ?_, ?_⟩
  · have hdepth : ((start margin).run steps).depth = outer.length + 1 := by
      rw [depth, hscopes]
      rfl
    rw [hdepth]
    exact congrArg (· + 1) (scopes_length_includeInner _ _)
  · have hmargin : ((start margin).run steps).margin = margin := margin_run _ _
    rw [hmargin]
    refine ⟨rfl, List.nil_append _, rfl, fun hnonneg => ?_⟩
    have hnonneg' : 0 ≤ opened.margin := by
      rw [← hopened, margin_run]
      exact hnonneg
    have hhull : Box.hull ((Box.lineAt opened.cursor :: insertedBoxes inside) ++
        (opened.closings inside).map Scope.extent) = _ :=
      hull_closings _ _ opened.depth _ fun closed hclosed =>
        (closings_le hopen.2 hnonneg' hclosed).trans (by rw [Box.hull_append]; exact le_sup_right)
    exact congrArg (·.expand margin) hhull.symm

/-- **Bounds report hulls.** A scope can be closed exactly if one is open since the last restart.
It is the latest such scope, and tells the hull of what came while it was open. The whole is the
hull of what came since the last restart, where a scope counts when no other one stays open around
it. Nothing depends on the order in which boxes are inserted between scopes, or on that of
corners. -/
theorem reports_hulls (margin : ℚ) (steps : List BoundsStep) :
    let bounds := (start margin).run steps
    let recent := sinceRestart steps
    (bounds.closeScope? = none ↔ ¬∃ before inside, LeavesOpen steps before inside) ∧
      (bounds.closeScope? = none → bounds.step .closeScope = bounds) ∧
      (∀ before inside, LeavesOpen steps before inside →
        ∃ closed rest, bounds.closeScope? = some (closed, rest) ∧ rest.depth + 1 = bounds.depth ∧
          Tells margin ((start margin).run (before ++ [.openScope])) inside closed) ∧
      bounds.whole = Box.hull (insertedBoxes recent ++
        ((start margin).closingsAt 0 recent).map Scope.extent ++
        ((start margin).advances recent).map Box.bottomAt) ∧
      (0 ≤ margin → (¬∃ before inside, LeavesOpen steps before inside) →
        bounds.whole = Box.hull (insertedBoxes recent ++
          ((start margin).closings recent).map Scope.extent ++
          ((start margin).advances recent).map Box.bottomAt)) ∧
      ∀ others, Reorders steps others →
        (start margin).run others = bounds ∧
          (start margin).closings others = (start margin).closings steps := by
  intro bounds recent
  have hwhole : bounds.whole = Box.hull ((start margin).parts recent) := by
    have hrun := whole_run (restart_notMem_sinceRestart steps) (start margin)
    rw [run_sinceRestart] at hrun
    exact hrun.trans (bot_sup_eq _)
  refine ⟨?_, ?_, fun before inside => tells_of_leavesOpen, hwhole, ?_, ?_⟩
  · rw [closeScope?_eq_none_iff]
    exact scopes_eq_nil_iff margin steps
  · intro hnone
    rw [Bounds.step, hnone]
    rfl
  · intro hmargin hclosed
    have hscopes : bounds.scopes = [] := (scopes_eq_nil_iff margin steps).mpr hclosed
    have hwithin (closed : ExactScope) (hmem : closed ∈ (start margin).closings recent) :
        closed.extent ≤ bounds.whole := by
      have hcovers := covers_closings (show 0 ≤ (start margin : ExactBounds).margin from hmargin)
        (restart_notMem_sinceRestart steps) hmem
      rw [run_sinceRestart] at hcovers
      exact hcovers.le_whole hscopes
    have hhull := hull_closings (start margin) recent 0
      (insertedBoxes recent ++ ((start margin).advances recent).map Box.bottomAt)
      fun closed hmem => (hwithin closed hmem).trans <| by
        rw [hwhole, parts]
        simp only [Box.hull_append]
        exact le_of_eq (sup_right_comm _ _ _)
    rw [hwhole, parts]
    simp only [Box.hull_append] at hhull ⊢
    rw [sup_right_comm, ← hhull, sup_right_comm]
  · intro others hreorders
    obtain ⟨hrun, hclosings⟩ := run_reorders hreorders (start margin)
    exact ⟨hrun.symm, hclosings.symm⟩

/-- A box in a scope that is closed while another one stays open around it. -/
def boxInScopes : List BoundsStep :=
  [.openScope, .openScope,
    .insert (place (0 : ℚ)) (place (0 : ℚ)) (place (10 : ℚ)) (place (10 : ℚ)), .closeScope]

/-- A scope that is opened far above the scope around it, inside a third one. -/
def scopeAbove : List BoundsStep :=
  [.openScope, .moveTo (-100), .openScope,
    .insert (place (0 : ℚ)) (place (0 : ℚ)) (place (10 : ℚ)) (place (10 : ℚ)),
    .closeScope, .closeScope]

/-- Inside an open scope, a closed one does not reach the whole. With a margin that shrinks boxes,
a scope closed deeper inside can reach farther than all that are closed directly inside. -/
theorem closed_deeper_inside :
    ((start 10).run boxInScopes).whole ≠ Box.hull (insertedBoxes boxInScopes ++
        ((start 10).closings boxInScopes).map Scope.extent ++
        ((start 10).advances boxInScopes).map Box.bottomAt) ∧
      ((start (-1)).run (.openScope :: scopeAbove)).closeScope?.map (·.1.extent) ≠
        some ((Box.hull (Box.lineAt 0 :: (insertedBoxes scopeAbove ++
          (((start (-1)).run [.openScope]).closings scopeAbove).map Scope.extent))).expand
            (-1 : ℚ)) := by
  decide +kernel

end Bounds

end SequenceChart
