import SequenceChart.Proofs.Covering

/-!
# Nested scopes

Bounds are kept up as steps are taken. Steps that close each scope that they open, and no other, add
to the scope in which they are taken: the boxes they insert, the scopes they close directly inside,
and their own dividers. To the scopes farther out they add nothing but the boxes.
-/

namespace SequenceChart

/-- What can be done to bounds. A box is inserted by two of its corners. -/
inductive BoundsStep
  | restart
  | insert (x1 y1 x2 y2 : ExactEdge)
  | openScope
  | closeScope
  | addSection
  | moveTo (position : ℚ)
  | advance (distance : ℚ)

namespace BoundsStep

/-- The step neither opens nor closes a scope. -/
def staysInScope : BoundsStep → Bool
  | insert .. | addSection | moveTo _ | advance _ => true
  | restart | openScope | closeScope => false

/-- Steps that close each scope that they open, and no other. -/
inductive Balanced : List BoundsStep → Prop
  | nil : Balanced []
  | plain {step : BoundsStep} {rest : List BoundsStep} :
      step.staysInScope = true → Balanced rest → Balanced (step :: rest)
  | nested {inside rest : List BoundsStep} : Balanced inside → Balanced rest →
      Balanced (.openScope :: (inside ++ .closeScope :: rest))

/-- After the steps, the latest scope that is still open is the one opened after `before`. -/
def LeavesOpen (steps before inside : List BoundsStep) : Prop :=
  steps = before ++ .openScope :: inside ∧ Balanced inside

def insertedBox? : BoundsStep → Option (Box ExactEdge)
  | insert x1 y1 x2 y2 => some (.ofCorners x1 y1 x2 y2)
  | _ => none

def insertedBoxes (steps : List BoundsStep) : List (Box ExactEdge) :=
  steps.filterMap insertedBox?

/-- The steps after the last restart, or all of them if there is none. -/
def sinceRestart (steps : List BoundsStep) : List BoundsStep :=
  steps.foldl (fun recent step => match step with
    | .restart => []
    | step => recent ++ [step]) []

/-- The lists differ in the order of insertions among steps that neither open nor close a scope,
and in the order of the corners that a box is inserted by. -/
inductive Reorders : List BoundsStep → List BoundsStep → Prop
  | refl (steps : List BoundsStep) : Reorders steps steps
  | symm {steps others : List BoundsStep} : Reorders steps others → Reorders others steps
  | trans {steps others third : List BoundsStep} :
      Reorders steps others → Reorders others third → Reorders steps third
  | cons (step : BoundsStep) {steps others : List BoundsStep} :
      Reorders steps others → Reorders (step :: steps) (step :: others)
  | swap (x1 y1 x2 y2 : ExactEdge) {step : BoundsStep} (rest : List BoundsStep) :
      step.staysInScope = true →
      Reorders (.insert x1 y1 x2 y2 :: step :: rest) (step :: .insert x1 y1 x2 y2 :: rest)
  | flipX (x1 y1 x2 y2 : ExactEdge) (rest : List BoundsStep) :
      Reorders (.insert x1 y1 x2 y2 :: rest) (.insert x2 y1 x1 y2 :: rest)
  | flipY (x1 y1 x2 y2 : ExactEdge) (rest : List BoundsStep) :
      Reorders (.insert x1 y1 x2 y2 :: rest) (.insert x1 y2 x2 y1 :: rest)

/-- Scopes are open after the steps, as many as `count`, each inside the one before. -/
inductive Opens : List BoundsStep → Nat → Prop
  | none (steps : List BoundsStep) : Opens steps 0
  | deeper {before inside : List BoundsStep} {count : Nat} :
      Opens before count → Balanced inside → Opens (before ++ .openScope :: inside) (count + 1)

theorem Balanced.append {steps others : List BoundsStep} (hsteps : Balanced steps)
    (hothers : Balanced others) : Balanced (steps ++ others) := by
  induction hsteps with
  | nil => exact hothers
  | plain hstays _ ih => exact .plain hstays ih
  | nested hinside _ _ ih =>
      rw [List.cons_append, List.append_assoc, List.cons_append]
      exact .nested hinside ih

theorem Opens.balanced {steps more : List BoundsStep} {count : Nat} (hopens : Opens steps count)
    (hmore : Balanced more) : Opens (steps ++ more) count := by
  cases hopens with
  | none => exact .none _
  | deeper hbefore hinside =>
      rw [List.append_assoc, List.cons_append]
      exact .deeper hbefore (hinside.append hmore)

@[simp]
theorem insertedBoxes_append (steps others : List BoundsStep) :
    insertedBoxes (steps ++ others) = insertedBoxes steps ++ insertedBoxes others :=
  List.filterMap_append

end BoundsStep

open BoundsStep

namespace Bounds

/-- A scope is closed only if one is open. -/
def step (bounds : ExactBounds) : BoundsStep → ExactBounds
  | .restart => bounds.restart
  | .insert x1 y1 x2 y2 => bounds.insert (.ofCorners x1 y1 x2 y2)
  | .openScope => bounds.openScope
  | .closeScope => (bounds.closeScope?.map Prod.snd).getD bounds
  | .addSection => bounds.addSection?.getD bounds
  | .moveTo position => bounds.moveTo position
  | .advance distance => bounds.advance distance

def run (bounds : ExactBounds) (steps : List BoundsStep) : ExactBounds :=
  steps.foldl step bounds

/-- The scope that a step closes. -/
def closed? (bounds : ExactBounds) : BoundsStep → Option ExactScope
  | .closeScope => bounds.closeScope?.map Prod.fst
  | _ => none

/-- What `view` shows of the steps of a run, in order. -/
def observe {β : Type} (view : ExactBounds → BoundsStep → List β) (bounds : ExactBounds) :
    List BoundsStep → List β
  | [] => []
  | step :: rest => view bounds step ++ observe view (bounds.step step) rest

/-- The scopes that are closed in a run. -/
def closings (bounds : ExactBounds) (steps : List BoundsStep) : List ExactScope :=
  bounds.observe (fun bounds step => (bounds.closed? step).toList) steps

/-- The scopes that are closed in a run where just `depth` scopes stay open around them. -/
def closingsAt (bounds : ExactBounds) (depth : Nat) (steps : List BoundsStep) : List ExactScope :=
  bounds.observe (fun bounds step =>
    if (bounds.step step).depth = depth then (bounds.closed? step).toList else []) steps

/-- Where the cursor stands at the dividers that are added while just `depth` scopes are open. -/
def sectionsAt (bounds : ExactBounds) (depth : Nat) (steps : List BoundsStep) : List ℚ :=
  bounds.observe (fun bounds step => match step with
    | .addSection => if bounds.depth = depth then [bounds.cursor] else []
    | _ => []) steps

/-- The positions to which the cursor is advanced. -/
def advances (bounds : ExactBounds) (steps : List BoundsStep) : List ℚ :=
  bounds.observe (fun bounds step => match step with
    | .advance distance => [bounds.cursor + distance]
    | _ => []) steps

end Bounds

/-- The line at a position, without an extent from left to right. -/
def Box.lineAt (position : ℚ) : Box ExactEdge :=
  { empty with startY := place position, stopY := place position }

/-- A lower edge at a position, and no other edge. -/
def Box.bottomAt (position : ℚ) : Box ExactEdge :=
  { empty with stopY := place position }

theorem Box.sup_bottomAt (box : Box ExactEdge) (position : ℚ) :
    box ⊔ bottomAt position = { box with stopY := max box.stopY (place position) } := by
  have hstartX : min box.startX ⊤ = box.startX := inf_top_eq _
  have hstartY : min box.startY ⊤ = box.startY := inf_top_eq _
  have hstopX : max box.stopX ⊥ = box.stopX := sup_bot_eq _
  calc
    box ⊔ bottomAt position =
        { startX := min box.startX ⊤, startY := min box.startY ⊤, stopX := max box.stopX ⊥,
          stopY := max box.stopY (place position) } := rfl
    _ = { box with stopY := max box.stopY (place position) } := by rw [hstartX, hstartY, hstopX]

/-- A scope when it is opened. -/
def Scope.opened (position : ℚ) : ExactScope :=
  { extent := Box.lineAt position, openedAt := position, sections := [] }

/-- The scope with more boxes and dividers in it. -/
def Scope.grow (scope : ExactScope) (boxes : List (Box ExactEdge)) (sections : List ℚ) :
    ExactScope :=
  { scope with
    extent := scope.extent ⊔ Box.hull boxes
    sections := scope.sections ++ sections }

def Scope.widen (scope : ExactScope) (margin : ℚ) : ExactScope :=
  { scope with extent := scope.extent.expand margin }

namespace Scope

@[simp]
theorem grow_nil (scope : ExactScope) : scope.grow [] [] = scope := by
  simp [grow]

theorem grow_grow (scope : ExactScope) (boxes others : List (Box ExactEdge))
    (sections more : List ℚ) :
    (scope.grow boxes sections).grow others more =
      scope.grow (boxes ++ others) (sections ++ more) := by
  simp [grow, sup_assoc]

theorem include_eq_grow (scope : ExactScope) (box : Box ExactEdge) :
    scope.include box = scope.grow [box] [] := by
  simp [grow, Scope.include, Box.join_eq_sup]

/-- Only the hull of the boxes matters. -/
theorem grow_congr (scope : ExactScope) {boxes others : List (Box ExactEdge)}
    (hhull : Box.hull boxes = Box.hull others) (sections : List ℚ) :
    scope.grow boxes sections = scope.grow others sections := by
  rw [grow, grow, hhull]

end Scope

namespace Bounds

variable {bounds : ExactBounds} {inner : ExactScope} {outer : List ExactScope}
  {steps others inside : List BoundsStep}

theorem run_append (bounds : ExactBounds) (steps others : List BoundsStep) :
    bounds.run (steps ++ others) = (bounds.run steps).run others :=
  List.foldl_append

@[simp]
theorem run_cons (bounds : ExactBounds) (step : BoundsStep) (rest : List BoundsStep) :
    bounds.run (step :: rest) = (bounds.step step).run rest := rfl

@[simp]
theorem run_nil (bounds : ExactBounds) : bounds.run [] = bounds := rfl

theorem observe_append {β : Type} (view : ExactBounds → BoundsStep → List β)
    (bounds : ExactBounds) (steps others : List BoundsStep) :
    bounds.observe view (steps ++ others) =
      bounds.observe view steps ++ (bounds.run steps).observe view others := by
  induction steps generalizing bounds with
  | nil => rfl
  | cons step rest ih =>
      rw [List.cons_append, observe, ih, observe, List.append_assoc]
      rfl

theorem closeScope?_eq (hscopes : bounds.scopes = inner :: outer) :
    bounds.closeScope? = some (inner.widen bounds.margin,
      ({ bounds with scopes := outer } : ExactBounds).includeInner
        (inner.widen bounds.margin).extent) := by
  unfold closeScope?
  rw [hscopes]
  rfl

theorem closeScope?_eq_none_iff : bounds.closeScope? = none ↔ bounds.scopes = [] := by
  cases hscopes : bounds.scopes with
  | nil => simp [closeScope?, hscopes]
  | cons inner outer => simp [closeScope?_eq hscopes]

theorem margin_includeInner (bounds : ExactBounds) (box : Box ExactEdge) :
    (bounds.includeInner box).margin = bounds.margin := by
  unfold includeInner
  split <;> rfl

theorem margin_step (bounds : ExactBounds) (step : BoundsStep) :
    (bounds.step step).margin = bounds.margin := by
  cases step with
  | closeScope =>
      cases hscopes : bounds.scopes with
      | nil => rw [Bounds.step, closeScope?_eq_none_iff.mpr hscopes]; rfl
      | cons inner outer =>
          rw [Bounds.step, closeScope?_eq hscopes]
          exact margin_includeInner _ _
  | addSection =>
      rw [Bounds.step, addSection?]
      split <;> rfl
  | restart | insert | openScope | moveTo | advance => rfl

theorem margin_run (bounds : ExactBounds) (steps : List BoundsStep) :
    (bounds.run steps).margin = bounds.margin := by
  induction steps generalizing bounds with
  | nil => rfl
  | cons step rest ih => rw [run_cons, ih, margin_step]

theorem scopes_step_of_nil {step : BoundsStep} (hstays : step.staysInScope = true)
    (hscopes : bounds.scopes = []) : (bounds.step step).scopes = [] := by
  cases step with
  | insert => simp [Bounds.step, Bounds.insert, hscopes]
  | addSection => simp [Bounds.step, addSection?, hscopes]
  | moveTo | advance => exact hscopes
  | restart | openScope | closeScope => cases hstays

/-- A box is inserted into all open scopes, and a divider is added to the innermost one. -/
theorem scopes_step_of_cons {step : BoundsStep} (hstays : step.staysInScope = true)
    (hscopes : bounds.scopes = inner :: outer) :
    (bounds.step step).scopes =
      inner.grow (insertedBoxes [step]) (bounds.sectionsAt bounds.depth [step]) ::
        outer.map (·.grow (insertedBoxes [step]) []) := by
  cases step with
  | insert x1 y1 x2 y2 =>
      have hgrow (scope : ExactScope) : scope.include (.ofCorners x1 y1 x2 y2) =
          scope.grow [.ofCorners x1 y1 x2 y2] [] := scope.include_eq_grow _
      simp only [Bounds.step, Bounds.insert, hscopes, List.map_cons, hgrow]
      rfl
  | addSection =>
      have hboxes : insertedBoxes [addSection] = [] := rfl
      simp [Bounds.step, addSection?, hscopes, hboxes, sectionsAt, observe, Scope.grow]
  | moveTo position =>
      have hboxes : insertedBoxes [.moveTo position] = [] := rfl
      simp [Bounds.step, Bounds.moveTo, hscopes, hboxes, sectionsAt, observe]
  | advance distance =>
      have hboxes : insertedBoxes [.advance distance] = [] := rfl
      simp [Bounds.step, Bounds.advance, hscopes, hboxes, sectionsAt, observe]
  | restart | openScope | closeScope => cases hstays

theorem depth_step {step : BoundsStep} (hstays : step.staysInScope = true) (bounds : ExactBounds) :
    (bounds.step step).depth = bounds.depth := by
  cases hscopes : bounds.scopes with
  | nil => rw [depth, scopes_step_of_nil hstays hscopes, depth, hscopes]
  | cons inner outer =>
      rw [depth, scopes_step_of_cons hstays hscopes, depth, hscopes]
      simp

theorem closed?_of_stays {step : BoundsStep} (hstays : step.staysInScope = true)
    (bounds : ExactBounds) : bounds.closed? step = none := by
  cases step with
  | closeScope => cases hstays
  | restart | insert | openScope | addSection | moveTo | advance => rfl

theorem depth_openScope (bounds : ExactBounds) :
    (bounds.step .openScope).depth = bounds.depth + 1 := rfl

theorem step_closeScope_of_cons (hscopes : bounds.scopes = inner :: outer) :
    bounds.step .closeScope =
      ({ bounds with scopes := outer } : ExactBounds).includeInner
        (inner.widen bounds.margin).extent := by
  rw [Bounds.step, closeScope?_eq hscopes]
  rfl

theorem closed?_closeScope_of_cons (hscopes : bounds.scopes = inner :: outer) :
    bounds.closed? .closeScope = some (inner.widen bounds.margin) := by
  rw [closed?, closeScope?_eq hscopes]
  rfl

theorem scopes_length_includeInner (bounds : ExactBounds) (box : Box ExactEdge) :
    (bounds.includeInner box).scopes.length = bounds.scopes.length := by
  cases hscopes : bounds.scopes <;> simp [includeInner, hscopes]

theorem depth_closeScope_of_cons (hscopes : bounds.scopes = inner :: outer) :
    (bounds.step .closeScope).depth = outer.length := by
  rw [step_closeScope_of_cons hscopes]
  exact scopes_length_includeInner _ _

/-! ### Balanced runs

The induction is on how a run is balanced: it begins with a step that stays in its scope, or with a
scope that is opened and closed around a balanced run. Which steps count for the scope at the start
is told by the depth, which is greater all along a run inside. -/

theorem depth_run (hsteps : Balanced steps) (bounds : ExactBounds) :
    (bounds.run steps).depth = bounds.depth := by
  induction hsteps generalizing bounds with
  | nil => rfl
  | plain hstays _ ih => rw [run_cons, ih, depth_step hstays]
  | @nested inside rest _ _ ihInside ih =>
      have hopen : ((bounds.step .openScope).run inside).depth = bounds.depth + 1 := ihInside _
      obtain ⟨inner, outer, hscopes⟩ := List.exists_cons_of_length_eq_add_one hopen
      rw [run_cons, run_append, run_cons, ih, depth_closeScope_of_cons hscopes]
      rw [depth, hscopes, List.length_cons] at hopen
      omega

/-- In a balanced run nothing shows that shows only outside of the scope where the run begins. -/
theorem observe_eq_nil {β : Type} {view : ExactBounds → BoundsStep → List β} {depth : Nat}
    (hview : ∀ (bounds : ExactBounds) (step : BoundsStep), depth < bounds.depth →
      depth < (bounds.step step).depth → view bounds step = [])
    (hsteps : Balanced steps) {bounds : ExactBounds} (hdepth : depth < bounds.depth) :
    bounds.observe view steps = [] := by
  induction hsteps generalizing bounds with
  | nil => rfl
  | @plain step rest hstays _ ih =>
      have hnext : depth < (bounds.step step).depth := by rwa [depth_step hstays]
      rw [observe, hview bounds step hdepth hnext, ih hnext, List.nil_append]
  | @nested inside rest hinside _ ihInside ih =>
      have hopen : depth < (bounds.step .openScope).depth := Nat.lt_succ_of_lt hdepth
      have hlast : ((bounds.step .openScope).run inside).depth = bounds.depth + 1 :=
        depth_run hinside _
      obtain ⟨inner, outer, hscopes⟩ := List.exists_cons_of_length_eq_add_one hlast
      have hclosed : depth < (((bounds.step .openScope).run inside).step .closeScope).depth := by
        rw [depth_closeScope_of_cons hscopes]
        rw [Bounds.depth, hscopes, List.length_cons] at hlast
        omega
      rw [observe, hview _ _ hdepth hopen, List.nil_append, observe_append, ihInside hopen, observe,
        hview _ _ (hlast ▸ Nat.lt_succ_of_lt hdepth) hclosed, ih hclosed]
      rfl

theorem closingsAt_eq_nil (hsteps : Balanced steps) {depth : Nat} (hdepth : depth < bounds.depth) :
    bounds.closingsAt depth steps = [] := by
  refine observe_eq_nil (fun bounds step _ hnext => ?_) hsteps hdepth
  rw [if_neg (Nat.ne_of_gt hnext)]

theorem sectionsAt_eq_nil (hsteps : Balanced steps) {depth : Nat} (hdepth : depth < bounds.depth) :
    bounds.sectionsAt depth steps = [] := by
  refine observe_eq_nil (fun bounds step hnow _ => ?_) hsteps hdepth
  cases step with
  | addSection => exact if_neg (Nat.ne_of_gt hnow)
  | restart | insert | openScope | closeScope | moveTo | advance => rfl

theorem scopes_openScope (bounds : ExactBounds) :
    (bounds.step .openScope).scopes = .opened bounds.cursor :: bounds.scopes := rfl

theorem scopes_closeScope {around : ExactScope}
    (hscopes : bounds.scopes = inner :: around :: outer) :
    (bounds.step .closeScope).scopes =
      around.grow [(inner.widen bounds.margin).extent] [] :: outer := by
  rw [step_closeScope_of_cons hscopes, ← Scope.include_eq_grow]
  rfl

theorem sectionsAt_cons (bounds : ExactBounds) (depth : Nat) (step : BoundsStep)
    (rest : List BoundsStep) :
    bounds.sectionsAt depth (step :: rest) =
      bounds.sectionsAt depth [step] ++ (bounds.step step).sectionsAt depth rest :=
  observe_append _ bounds [step] rest

theorem closingsAt_cons_of_stays {step : BoundsStep} (hstays : step.staysInScope = true)
    (bounds : ExactBounds) (depth : Nat) (rest : List BoundsStep) :
    bounds.closingsAt depth (step :: rest) = (bounds.step step).closingsAt depth rest := by
  rw [closingsAt, observe, closed?_of_stays hstays]
  simp [closingsAt]

section Nested

variable {last : ExactScope} {around : List ExactScope}

/-- The scope that is closed after a balanced run is the one that is opened before it. -/
theorem closingsAt_nested (hinside : Balanced inside)
    (hlast : ((bounds.step .openScope).run inside).scopes = last :: around)
    (rest : List BoundsStep) :
    bounds.closingsAt bounds.depth (.openScope :: (inside ++ .closeScope :: rest)) =
      last.widen bounds.margin ::
        (((bounds.step .openScope).run inside).step .closeScope).closingsAt bounds.depth rest := by
  have hmargin : ((bounds.step .openScope).run inside).margin = bounds.margin := by
    rw [margin_run, margin_step]
  have hdepth : (((bounds.step .openScope).run inside).step .closeScope).depth = bounds.depth := by
    have hopen := depth_run hinside (bounds.step .openScope)
    rw [depth_openScope, depth, hlast] at hopen
    rw [depth_closeScope_of_cons hlast]
    exact Nat.succ.inj hopen
  have hbefore : (bounds.step .openScope).closingsAt bounds.depth inside = [] :=
    closingsAt_eq_nil hinside (Nat.lt_succ_self _)
  calc
    bounds.closingsAt bounds.depth (.openScope :: (inside ++ .closeScope :: rest)) =
        (bounds.step .openScope).closingsAt bounds.depth (inside ++ .closeScope :: rest) := by
      simp [closingsAt, observe, closed?]
    _ = ((bounds.step .openScope).run inside).closingsAt bounds.depth (.closeScope :: rest) := by
      rw [closingsAt, observe_append]
      exact congrArg (· ++ _) hbefore
    _ = last.widen bounds.margin ::
        (((bounds.step .openScope).run inside).step .closeScope).closingsAt bounds.depth rest := by
      rw [closingsAt, observe, if_pos hdepth, closed?_closeScope_of_cons hlast, hmargin]
      rfl

theorem sectionsAt_nested (hinside : Balanced inside) (bounds : ExactBounds)
    (rest : List BoundsStep) :
    bounds.sectionsAt bounds.depth (.openScope :: (inside ++ .closeScope :: rest)) =
      (((bounds.step .openScope).run inside).step .closeScope).sectionsAt bounds.depth rest := by
  have hbefore : (bounds.step .openScope).sectionsAt bounds.depth inside = [] :=
    sectionsAt_eq_nil hinside (Nat.lt_succ_self _)
  rw [sectionsAt_cons, sectionsAt, sectionsAt, observe_append]
  exact congrArg (· ++ _) hbefore

end Nested

theorem insertedBoxes_nested (inside rest : List BoundsStep) :
    insertedBoxes (.openScope :: (inside ++ .closeScope :: rest)) =
      insertedBoxes inside ++ insertedBoxes rest :=
  insertedBoxes_append inside (.closeScope :: rest)

/-- A balanced run adds to the scope where it begins what is inserted and what is closed directly
inside, and to the scopes around it only what is inserted. -/
theorem scopes_run (hsteps : Balanced steps) (hscopes : bounds.scopes = inner :: outer) :
    (bounds.run steps).scopes =
      inner.grow (insertedBoxes steps ++ (bounds.closingsAt bounds.depth steps).map Scope.extent)
          (bounds.sectionsAt bounds.depth steps) ::
        outer.map (·.grow (insertedBoxes steps) []) := by
  induction hsteps generalizing bounds inner outer with
  | nil => simp [hscopes, insertedBoxes, closingsAt, sectionsAt, observe]
  | @plain step rest hstays _ ih =>
      have hboxes : insertedBoxes (step :: rest) = insertedBoxes [step] ++ insertedBoxes rest :=
        insertedBoxes_append [step] rest
      rw [run_cons, ih (scopes_step_of_cons hstays hscopes), depth_step hstays, Scope.grow_grow,
        List.map_map, ← sectionsAt_cons, closingsAt_cons_of_stays hstays, hboxes,
        List.append_assoc]
      congr 2
      funext scope
      exact scope.grow_grow _ _ _ _
  | @nested inside rest hinside hrest ihInside ih =>
      -- inside, the boxes go to the scope that is opened and to all scopes around it
      have hopened : (bounds.step .openScope).scopes = .opened bounds.cursor :: inner :: outer :=
        hscopes ▸ scopes_openScope bounds
      have hlast := ihInside hopened
      have hclosings := closingsAt_nested hinside hlast rest
      have hclosed := scopes_closeScope hlast
      have hdepth : (((bounds.step .openScope).run inside).step .closeScope).depth =
          bounds.depth := by
        rw [depth_closeScope_of_cons hlast, List.length_map, List.length_cons, depth, hscopes]
        rfl
      rw [run_cons, run_append, run_cons, ih hclosed, hdepth, hclosings,
        sectionsAt_nested hinside, insertedBoxes_nested, margin_run, margin_step, Scope.grow_grow,
        Scope.grow_grow, List.map_map]
      congr 1
      · refine Scope.grow_congr _ ?_ _
        simp only [Box.hull_append, Box.hull_cons, Box.hull_nil, List.map_cons, sup_bot_eq]
        ac_rfl
      · congr 1
        funext scope
        exact scope.grow_grow _ _ _ _

theorem opens_run (bounds : ExactBounds) (hscopes : bounds.scopes = []) (steps : List BoundsStep) :
    Opens steps (bounds.run steps).depth := by
  induction steps using List.reverseRecOn with
  | nil =>
      rw [run_nil, depth, hscopes]
      exact .none _
  | append_singleton steps step ih =>
      rw [run_append, run_cons, run_nil]
      by_cases hstays : step.staysInScope = true
      · rw [depth_step hstays]
        exact ih.balanced (.plain hstays .nil)
      · cases step with
        | restart => exact .none _
        | openScope => exact .deeper ih .nil
        | closeScope =>
            cases hlast : (bounds.run steps).scopes with
            | nil =>
                rw [Bounds.step, closeScope?_eq_none_iff.mpr hlast, Option.map_none,
                  Option.getD_none, depth, hlast]
                exact .none _
            | cons inner outer =>
                rw [depth, hlast, List.length_cons] at ih
                rw [depth_closeScope_of_cons hlast]
                cases ih with
                | deeper hbefore hinside =>
                    rw [List.append_assoc, List.cons_append]
                    exact hbefore.balanced (.nested hinside .nil)
        | insert | addSection | moveTo | advance => exact absurd rfl hstays

/-- The scope that the steps leave open holds what came after it was opened. -/
theorem scopes_of_leavesOpen {before : List BoundsStep} (hopen : LeavesOpen steps before inside)
    (bounds : ExactBounds) {opened : ExactBounds}
    (hopened : opened = bounds.run (before ++ [.openScope])) :
    ∃ outer, (bounds.run steps).scopes =
      (Scope.opened opened.cursor).grow
        (insertedBoxes inside ++ (opened.closingsAt opened.depth inside).map Scope.extent)
        (opened.sectionsAt opened.depth inside) :: outer := by
  obtain ⟨rfl, hinside⟩ := hopen
  rw [run_append] at hopened
  have hscopes := scopes_run hinside (scopes_openScope (bounds.run before))
  rw [run_append, run_cons, hscopes, hopened]
  exact ⟨_, rfl⟩

theorem scopes_eq_nil_iff (margin : ℚ) (steps : List BoundsStep) :
    ((start margin).run steps).scopes = [] ↔ ¬∃ before inside, LeavesOpen steps before inside := by
  constructor
  · rintro hscopes ⟨before, inside, hopen⟩
    obtain ⟨outer, hcons⟩ := scopes_of_leavesOpen hopen (start margin) rfl
    rw [hscopes] at hcons
    cases hcons
  · intro hclosed
    by_contra hscopes
    obtain ⟨count, hcount⟩ := Nat.exists_eq_succ_of_ne_zero
      (Nat.ne_of_gt (List.length_pos_iff.mpr hscopes))
    have hopens := opens_run (start margin) rfl steps
    rw [depth, hcount] at hopens
    cases hopens with
    | deeper _ hinside => exact hclosed ⟨_, _, rfl, hinside⟩

end Bounds

end SequenceChart
