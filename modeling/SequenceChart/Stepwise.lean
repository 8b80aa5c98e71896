/-!
# Stepwise runs

A run takes one step per item and ends early at the first step that reports a fault. What the
failing step changed before it failed is kept.
-/

/-- Two steps in a row succeed if both do. -/
theorem Except.bind_eq_ok {ε α β : Type} {first : Except ε α} {next : α → Except ε β} {result : β} :
    first >>= next = .ok result ↔ ∃ value, first = .ok value ∧ next value = .ok result := by
  constructor
  · intro hresult
    cases first with
    | error fault => cases hresult
    | ok value => exact ⟨value, rfl, hresult⟩
  · rintro ⟨value, rfl, hnext⟩
    exact hnext

theorem StateT.bind_of_ok {σ ε α β : Type} {first : StateT σ (Except ε) α}
    {next : α → StateT σ (Except ε) β} {state later : σ} {value : α}
    (hfirst : first state = .ok (value, later)) : (first >>= next) state = next value later := by
  change (StateT.bind first next) state = _
  rw [StateT.bind, hfirst]
  rfl

theorem StateT.bind_of_error {σ ε α β : Type} {first : StateT σ (Except ε) α}
    {next : α → StateT σ (Except ε) β} {state : σ} {fault : ε}
    (hfirst : first state = .error fault) : (first >>= next) state = .error fault := by
  change (StateT.bind first next) state = _
  rw [StateT.bind, hfirst]
  rfl

/-- A result that passes a test is there. -/
theorem Except.exists_ok_of_any {ε α : Type} {result : Except ε α} {test : α → Bool}
    (htest : result.toOption.any test = true) :
    ∃ value, result = .ok value ∧ test value = true := by
  cases result with
  | error fault => cases htest
  | ok value => exact ⟨value, rfl, htest⟩

/-- A run of steps fails at the first step that fails. -/
theorem Except.foldlM_eq_error {ε α β : Type} {step : β → α → Except ε β} {start : β}
    {items : List α} {fault : ε} (hfails : items.foldlM step start = .error fault) :
    ∃ earlier item later state, items = earlier ++ item :: later ∧
      earlier.foldlM step start = .ok state ∧ step state item = .error fault := by
  induction items generalizing start with
  | nil => cases hfails
  | cons item rest ih =>
      rw [List.foldlM_cons] at hfails
      cases hstep : step start item with
      | error other =>
          rw [hstep] at hfails
          exact ⟨[], item, rest, start, rfl, rfl, hstep.trans hfails⟩
      | ok next =>
          rw [hstep] at hfails
          obtain ⟨earlier, found, later, state, rfl, hearlier, hfound⟩ := ih hfails
          refine ⟨item :: earlier, found, later, state, rfl, ?_, hfound⟩
          rw [List.foldlM_cons, hstep]
          exact hearlier

namespace SequenceChart

variable {State Item Fault : Type}

def runSteps (step : State → Item → State × Option Fault) :
    State → List Item → State × Option Fault
  | state, [] => (state, none)
  | state, item :: rest =>
      match step state item with
      | (next, none) => runSteps step next rest
      | (next, some fault) => (next, some fault)

@[simp]
theorem runSteps_nil (step : State → Item → State × Option Fault) (state : State) :
    runSteps step state [] = (state, none) := rfl

theorem runSteps_cons_eq_none_iff {step : State → Item → State × Option Fault} {state last : State}
    {item : Item} {rest : List Item} :
    runSteps step state (item :: rest) = (last, none) ↔
      ∃ next, step state item = (next, none) ∧ runSteps step next rest = (last, none) := by
  rw [runSteps]
  rcases step state item with ⟨next, _ | fault⟩
  · constructor
    · intro hrest
      exact ⟨next, rfl, hrest⟩
    · rintro ⟨_, hstep, hrest⟩
      obtain rfl := congrArg Prod.fst hstep
      exact hrest
  · constructor
    · intro hfails
      cases congrArg Prod.snd hfails
    · rintro ⟨_, hstep, -⟩
      cases congrArg Prod.snd hstep

theorem runSteps_append (step : State → Item → State × Option Fault) (state : State)
    (left right : List Item) :
    runSteps step state (left ++ right) =
      match runSteps step state left with
      | (next, none) => runSteps step next right
      | (next, some fault) => (next, some fault) := by
  induction left generalizing state with
  | nil => rfl
  | cons item rest ih =>
      simp only [List.cons_append, runSteps]
      split
      · exact ih _
      · rfl

/-- A run that reports a fault runs up to the step that reports it. -/
theorem runSteps_eq_some {step : State → Item → State × Option Fault} {state last : State}
    {items : List Item} {fault : Fault} (hrun : runSteps step state items = (last, some fault)) :
    ∃ earlier item later mid, items = earlier ++ item :: later ∧
      runSteps step state earlier = (mid, none) ∧ step mid item = (last, some fault) := by
  induction items generalizing state with
  | nil => cases hrun
  | cons item items ih =>
      rw [runSteps] at hrun
      cases hstep : step state item with
      | mk next reported =>
          rw [hstep] at hrun
          cases reported with
          | some other => exact ⟨[], item, items, state, rfl, rfl, hstep.trans hrun⟩
          | none =>
              obtain ⟨earlier, found, later, mid, rfl, hmid, hfound⟩ := ih hrun
              refine ⟨item :: earlier, found, later, mid, rfl, ?_, hfound⟩
              rw [runSteps, hstep]
              exact hmid

/-- If a view of the state determines the view after each step, and the fault, it determines the
view at the end of a run. -/
theorem runSteps_congr {View : Type} (view : State → View)
    {step : State → Item → State × Option Fault}
    (hstep : ∀ {state twin : State}, view state = view twin → ∀ item,
      view (step state item).1 = view (step twin item).1 ∧
        (step state item).2 = (step twin item).2)
    {state twin : State} (hview : view state = view twin) (items : List Item) :
    view (runSteps step state items).1 = view (runSteps step twin items).1 ∧
      (runSteps step state items).2 = (runSteps step twin items).2 := by
  induction items generalizing state twin with
  | nil => exact ⟨hview, rfl⟩
  | cons item rest ih =>
      obtain ⟨hnext, hfault⟩ := hstep hview item
      rw [runSteps, runSteps]
      rcases hfirst : step state item with ⟨next, fault⟩
      rcases hsecond : step twin item with ⟨nextTwin, faultTwin⟩
      rw [hfirst, hsecond] at hnext hfault
      obtain rfl : fault = faultTwin := hfault
      cases fault with
      | none => exact ih hnext
      | some fault => exact ⟨hnext, rfl⟩

/-- What every step preserves holds at the end of a run, also of a run that ends early. -/
theorem runSteps_preserves (Invariant : State → Prop) {step : State → Item → State × Option Fault}
    (hstep : ∀ state item, Invariant state → Invariant (step state item).1) {state : State}
    (hstart : Invariant state) (items : List Item) : Invariant (runSteps step state items).1 := by
  induction items generalizing state with
  | nil => exact hstart
  | cons item rest ih =>
      have hnext := hstep state item hstart
      simp only [runSteps]
      split
      · rename_i hrun
        rw [hrun] at hnext
        exact ih hnext
      · rename_i hrun
        rw [hrun] at hnext
        exact hnext

end SequenceChart
