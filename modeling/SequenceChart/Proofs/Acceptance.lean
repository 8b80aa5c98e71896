import Mathlib.Data.List.Induction
import SequenceChart.Proofs.Activations
import SequenceChart.Proofs.Rendering

/-!
# What can be laid out

The events of a chart can be laid out if their block markers fit, and if no block is left open at
the end. A divider fits if it belongs to the innermost block that is open, and a closing marker if
that block is of its own kind. Which fault is reported otherwise is decided by the first marker that
does not fit; only where all of them fit, it is that a block is left open.
-/

namespace SequenceChart

/-- What a marker makes of the kinds of the open blocks, the innermost first. -/
def BlockMarker.stack (opened : List BlockKind) : BlockMarker → List BlockKind
  | opening kind => kind :: opened
  | divider _ => opened
  | closing _ => opened.tail

/-- The marker opens a block, or the innermost open block is one that it divides or closes. -/
def BlockMarker.Fits (opened : List BlockKind) : BlockMarker → Prop
  | opening _ => True
  | divider kind => opened.head? = some kind.block
  | closing kind => opened.head? = some kind

/-- What is wrong with a marker that does not fit. -/
inductive BlockMarker.Misfit (opened : List BlockKind) : BlockMarker → LayoutError → Prop
  | divider {kind : SectionKind} :
      opened.head? ≠ some kind.block → Misfit opened (.divider kind) (.dividerOutsideBlock kind)
  | nothingOpen {kind : BlockKind} :
      opened = [] → Misfit opened (.closing kind) (.nothingToClose kind)
  | otherOpen {kind inner : BlockKind} {outer : List BlockKind} :
      opened = inner :: outer → inner ≠ kind →
      Misfit opened (.closing kind) (.otherBlockOpen kind inner)

def Event.stack (opened : List BlockKind) : Event → List BlockKind
  | block marker _ => marker.stack opened
  | _ => opened

def Event.Fits (opened : List BlockKind) : Event → Prop
  | block marker _ => marker.Fits opened
  | _ => True

/-- The kinds of the blocks that are open after the events, the innermost first. -/
def openKinds (events : List Event) : List BlockKind :=
  events.foldl Event.stack []

/-- Every marker fits into the blocks that the events before it leave open. -/
def MarkersFit (events : List Event) : Prop :=
  ∀ earlier event later, events = earlier ++ event :: later → event.Fits (openKinds earlier)

/-- The fault of the first marker that does not fit, or of a block that is left open where all
markers fit. -/
inductive FirstFault (events : List Event) : LayoutError → Prop
  | misfit {earlier later : List Event} {marker : BlockMarker} {label : Option String}
      {fault : LayoutError} :
      events = earlier ++ .block marker label :: later → MarkersFit earlier →
      marker.Misfit (openKinds earlier) fault → FirstFault events fault
  | leftOpen {inner : BlockKind} {outer : List BlockKind} :
      MarkersFit events → openKinds events = inner :: outer →
      FirstFault events (.unclosedBlock inner)

variable {events : List Event} {event : Event} {opened next : List BlockKind} {fault : LayoutError}

theorem openKinds_append_singleton (events : List Event) (event : Event) :
    openKinds (events ++ [event]) = event.stack (openKinds events) :=
  List.foldl_concat ..

theorem markersFit_nil : MarkersFit [] := by
  intro earlier event later hevents
  cases earlier <;> cases hevents

theorem markersFit_append_singleton :
    MarkersFit (events ++ [event]) ↔ MarkersFit events ∧ event.Fits (openKinds events) := by
  constructor
  · intro hfit
    refine ⟨fun earlier other later hevents => ?_, hfit events event [] rfl⟩
    apply hfit earlier other (later ++ [event])
    rw [hevents, List.append_assoc, List.cons_append]
  · rintro ⟨hfit, hlast⟩ earlier other later hevents
    induction later using List.reverseRecOn with
    | nil =>
        obtain ⟨rfl, hsame⟩ := List.append_inj' hevents rfl
        rwa [← (List.cons.inj hsame).1]
    | append_singleton later final =>
        rw [← List.cons_append, ← List.append_assoc] at hevents
        exact hfit earlier other later (List.append_inj' hevents rfl).1

namespace BlockMarker

variable {marker : BlockMarker}

theorem nest_eq_ok_iff :
    marker.nest opened = .ok next ↔ marker.Fits opened ∧ next = marker.stack opened := by
  have hok (stack : List BlockKind) (hfits : marker.Fits opened) :
      (.ok stack : Except LayoutError (List BlockKind)) = .ok next ↔
        marker.Fits opened ∧ next = stack := by
    rw [Except.ok.injEq, eq_comm]
    exact (and_iff_right hfits).symm
  have herror (fault : LayoutError) (hmisfits : ¬marker.Fits opened) (stack : List BlockKind) :
      (.error fault : Except LayoutError (List BlockKind)) = .ok next ↔
        marker.Fits opened ∧ next = stack := by
    constructor
    · intro hfails
      cases hfails
    · intro hfits
      exact absurd hfits.1 hmisfits
  cases marker with
  | opening kind => exact hok (kind :: opened) trivial
  | divider kind =>
      rw [nest]
      by_cases hinner : opened.head? = some kind.block
      · rw [if_pos hinner]
        exact hok opened hinner
      · rw [if_neg hinner]
        exact herror _ hinner opened
  | closing kind =>
      cases opened with
      | nil => exact herror _ (Option.some_ne_none kind).symm []
      | cons inner outer =>
          rw [nest]
          by_cases hkind : inner = kind
          · rw [if_pos hkind]
            exact hok outer (congrArg some hkind)
          · rw [if_neg hkind]
            exact herror _ (mt Option.some.inj hkind) outer

theorem nest_eq_error_iff : marker.nest opened = .error fault ↔ marker.Misfit opened fault := by
  constructor
  · intro hnest
    cases marker with
    | opening kind => cases hnest
    | divider kind =>
        rw [nest] at hnest
        split at hnest
        · cases hnest
        · rename_i hinner
          cases hnest
          exact .divider hinner
    | closing kind =>
        cases opened with
        | nil =>
            cases hnest
            exact .nothingOpen rfl
        | cons inner outer =>
            rw [nest] at hnest
            split at hnest
            · cases hnest
            · rename_i hkind
              cases hnest
              exact .otherOpen rfl hkind
  · intro hmisfit
    cases hmisfit with
    | divider hinner => rw [nest, if_neg hinner]
    | nothingOpen hnone => rw [hnone, nest]
    | otherOpen hsome hkind => rw [hsome, nest, if_neg hkind]

end BlockMarker

theorem Event.nest_eq_ok_iff :
    event.nest opened = .ok next ↔ event.Fits opened ∧ next = event.stack opened := by
  cases event with
  | block marker label => exact BlockMarker.nest_eq_ok_iff
  | message | note | activation =>
      change (.ok opened : Except LayoutError (List BlockKind)) = .ok next ↔ True ∧ next = opened
      rw [Except.ok.injEq, eq_comm, true_and]

theorem Event.nest_eq_error_iff :
    event.nest opened = .error fault ↔
      ∃ marker label, event = .block marker label ∧ marker.Misfit opened fault := by
  cases event with
  | block marker label =>
      refine BlockMarker.nest_eq_error_iff.trans ⟨fun hmisfit => ⟨marker, label, rfl, hmisfit⟩, ?_⟩
      rintro ⟨_, _, hsame, hmisfit⟩
      cases hsame
      exact hmisfit
  | message | note | activation => exact ⟨nofun, nofun⟩

/-- The events nest if all markers fit. -/
theorem foldlM_nest_eq_ok_iff :
    events.foldlM Event.nest [] = .ok opened ↔ MarkersFit events ∧ opened = openKinds events := by
  induction events using List.reverseRecOn generalizing opened with
  | nil =>
      refine ⟨fun hopened => ⟨markersFit_nil, (Except.ok.inj hopened).symm⟩, ?_⟩
      rintro ⟨-, rfl⟩
      rfl
  | append_singleton events event ih =>
      rw [List.foldlM_append, Except.bind_eq_ok, markersFit_append_singleton,
        openKinds_append_singleton]
      constructor
      · rintro ⟨before, hbefore, hlast⟩
        obtain ⟨hfit, rfl⟩ := ih.mp hbefore
        rw [List.foldlM_cons, Except.bind_eq_ok] at hlast
        obtain ⟨after, hafter, hnil⟩ := hlast
        obtain ⟨hfits, rfl⟩ := Event.nest_eq_ok_iff.mp hafter
        exact ⟨⟨hfit, hfits⟩, (Except.ok.inj hnil).symm⟩
      · rintro ⟨⟨hfit, hfits⟩, rfl⟩
        refine ⟨openKinds events, ih.mpr ⟨hfit, rfl⟩, ?_⟩
        rw [List.foldlM_cons, Except.bind_eq_ok]
        exact ⟨_, Event.nest_eq_ok_iff.mpr ⟨hfits, rfl⟩, rfl⟩

/-- Nesting fails at the first marker that does not fit. -/
theorem foldlM_nest_eq_error_iff :
    events.foldlM Event.nest [] = .error fault ↔
      ∃ earlier marker label later, events = earlier ++ .block marker label :: later ∧
        MarkersFit earlier ∧ marker.Misfit (openKinds earlier) fault := by
  constructor
  · intro hfails
    obtain ⟨earlier, event, later, before, rfl, hbefore, hevent⟩ := Except.foldlM_eq_error hfails
    obtain ⟨hfit, rfl⟩ := foldlM_nest_eq_ok_iff.mp hbefore
    obtain ⟨marker, label, rfl, hmisfit⟩ := Event.nest_eq_error_iff.mp hevent
    exact ⟨earlier, marker, label, later, rfl, hfit, hmisfit⟩
  · rintro ⟨earlier, marker, label, later, rfl, hfit, hmisfit⟩
    have hevent : (Event.block marker label).nest (openKinds earlier) = .error fault :=
      Event.nest_eq_error_iff.mpr ⟨marker, label, rfl, hmisfit⟩
    rw [List.foldlM_append, foldlM_nest_eq_ok_iff.mpr ⟨hfit, rfl⟩]
    change List.foldlM Event.nest (openKinds earlier) (.block marker label :: later) = _
    rw [List.foldlM_cons, hevent]
    rfl

section Layout

variable {α ε : Type} [Scale α] [Edge ε] [Placing α ε]

namespace Diagram

variable {diagram : Diagram} (hregistered : diagram.Registered) (settings : Settings α)
  (measurer : Measurer α)

include hregistered

/-- Where the events do not nest, drawing reports the same fault. -/
theorem layout_of_nesting_error (hnesting : diagram.nesting = .error fault) :
    (diagram.layout settings measurer : Except LayoutError (Layout α ε)) = .error fault := by
  have hfollows := follows_nesting (ε := ε) hregistered (Pen.ofSettings settings measurer)
  rw [hnesting] at hfollows
  change diagram.events.foldlM (Drawing.draw (Pen.ofSettings settings measurer)) _ >>= _ = _
  rw [hfollows.eq_error]
  rfl

/-- Where the events leave a block open, the drawing cannot be finished. -/
theorem layout_of_left_open {inner : BlockKind} {outer : List BlockKind}
    (hnesting : diagram.nesting = .ok (inner :: outer)) :
    (diagram.layout settings measurer : Except LayoutError (Layout α ε)) =
      .error (.unclosedBlock inner) := by
  have hfollows := follows_nesting (ε := ε) hregistered (Pen.ofSettings settings measurer)
  rw [hnesting] at hfollows
  obtain ⟨drawing, hdraw, htracks⟩ := hfollows.eq_ok
  obtain ⟨block, rest, hopen, rfl, -⟩ := List.map_eq_cons_iff.mp htracks.blocks
  change diagram.events.foldlM (Drawing.draw (Pen.ofSettings settings measurer)) _ >>= _ = _
  rw [hdraw]
  change drawing.finish (Pen.ofSettings settings measurer) diagram.title = _
  rw [Drawing.finish, hopen]

theorem layout_eq_error_iff :
    (diagram.layout settings measurer : Except LayoutError (Layout α ε)) = .error fault ↔
      FirstFault diagram.events fault := by
  constructor
  · intro hlayout
    cases hnesting : diagram.nesting with
    | error other =>
        rw [layout_of_nesting_error hregistered settings measurer hnesting] at hlayout
        obtain ⟨earlier, marker, label, later, hevents, hfit, hmisfit⟩ :=
          foldlM_nest_eq_error_iff.mp hnesting
        rw [← Except.error.inj hlayout]
        exact .misfit hevents hfit hmisfit
    | ok opened =>
        obtain ⟨hfit, hopened⟩ := foldlM_nest_eq_ok_iff.mp hnesting
        cases opened with
        | nil =>
            obtain ⟨layout, hok⟩ := layout_eq_ok (ε := ε) hregistered hnesting settings measurer
            rw [hlayout] at hok
            cases hok
        | cons inner outer =>
            rw [layout_of_left_open hregistered settings measurer hnesting] at hlayout
            rw [← Except.error.inj hlayout]
            exact .leftOpen hfit hopened.symm
  · intro hfault
    cases hfault with
    | misfit hevents hfit hmisfit =>
        apply layout_of_nesting_error hregistered
        exact foldlM_nest_eq_error_iff.mpr ⟨_, _, _, _, hevents, hfit, hmisfit⟩
    | leftOpen hfit hopened =>
        apply layout_of_left_open hregistered
        exact foldlM_nest_eq_ok_iff.mpr ⟨hfit, hopened.symm⟩

theorem exists_layout_iff :
    (∃ layout : Layout α ε, diagram.layout settings measurer = .ok layout) ↔
      MarkersFit diagram.events ∧ openKinds diagram.events = [] := by
  constructor
  · rintro ⟨layout, hlayout⟩
    cases hnesting : diagram.nesting with
    | error fault =>
        rw [layout_of_nesting_error hregistered settings measurer hnesting] at hlayout
        cases hlayout
    | ok opened =>
        cases opened with
        | nil =>
            obtain ⟨hfit, hopened⟩ := foldlM_nest_eq_ok_iff.mp hnesting
            exact ⟨hfit, hopened.symm⟩
        | cons inner outer =>
            rw [layout_of_left_open hregistered settings measurer hnesting] at hlayout
            cases hlayout
  · rintro ⟨hfit, hopened⟩
    have hnested : diagram.WellNested := foldlM_nest_eq_ok_iff.mpr ⟨hfit, hopened.symm⟩
    exact layout_eq_ok hregistered hnested settings measurer

end Diagram

/-- Events contradict each other only where a marker closes a block of another kind than is open. -/
theorem FirstFault.errorClass (hfault : FirstFault events fault) :
    (∃ kind inner, fault = .otherBlockOpen kind inner) ∧ fault.errorClass = .invalidModel ∨
      (∀ kind inner, fault ≠ .otherBlockOpen kind inner) ∧
        fault.errorClass = .unbalancedScope := by
  cases hfault with
  | misfit _ _ hmisfit =>
      cases hmisfit with
      | divider | nothingOpen => exact .inr ⟨nofun, rfl⟩
      | otherOpen => exact .inl ⟨⟨_, _, rfl⟩, rfl⟩
  | leftOpen => exact .inr ⟨nofun, rfl⟩

/-- **What can be laid out.** Whatever the settings and the measurer, a chart can be laid out if and
only if each divider and each closing marker fits to the innermost block that is open before it, and
no block is open at the end. Otherwise the fault is that of the first marker that does not fit, or
that of the block that is left open. A block that is open is contradicted only by a closing marker
of another kind; any other fault leaves blocks unbalanced. -/
theorem Chart.Built.layout_accepts {chart : Chart} (hbuilt : chart.Built) (settings : Settings α)
    (measurer : Measurer α) :
    ((∃ layout : Layout α ε, chart.diagram.layout settings measurer = .ok layout) ↔
        MarkersFit chart.diagram.events ∧ openKinds chart.diagram.events = []) ∧
      ∀ fault, ((chart.diagram.layout settings measurer :
            Except LayoutError (Layout α ε)) = .error fault ↔
          FirstFault chart.diagram.events fault) ∧
        (FirstFault chart.diagram.events fault →
          (∃ kind inner, fault = .otherBlockOpen kind inner) ∧ fault.errorClass = .invalidModel ∨
            (∀ kind inner, fault ≠ .otherBlockOpen kind inner) ∧
              fault.errorClass = .unbalancedScope) := by
  have hregistered := hbuilt.balanced.registered
  refine ⟨Diagram.exists_layout_iff hregistered settings measurer, fun fault => ⟨?_, ?_⟩⟩
  · exact Diagram.layout_eq_error_iff hregistered settings measurer
  · exact FirstFault.errorClass

end Layout

/-- A loop that ends inside of an alternative. -/
def crossed : Chart :=
  Chart.empty.operateAll
    [.edit (.addBlockMarker (.opening .loop) (some "again")),
      .edit (.addBlockMarker (.opening .alt) (some "sunny")),
      .edit (.addMessage "A" "B" .solid "go"),
      .edit (.addBlockMarker (.divider .altElse) (some "rainy")),
      .edit (.addBlockMarker (.closing .loop) none), .edit (.addBlockMarker (.closing .alt) none)]

theorem built_crossed : crossed.Built :=
  Chart.Built.operateAll (.new .standard) _

theorem crossed_not_accepted :
    (crossed.diagram.layout .standard Grid.standard.measurer :
        Except LayoutError (Layout Float Float)) = .error (.otherBlockOpen .loop .alt) ∧
      (LayoutError.otherBlockOpen .loop .alt).errorClass = .invalidModel := by
  obtain ⟨-, hfaults⟩ := built_crossed.layout_accepts (ε := Float) .standard Grid.standard.measurer
  obtain ⟨hlayout, hclass⟩ := hfaults (.otherBlockOpen .loop .alt)
  have hevents : crossed.diagram.events =
      [.block (.opening .loop) (some "again"), .block (.opening .alt) (some "sunny"),
        .message ⟨.solid, "A", "B", "go", false, none⟩,
        .block (.divider .altElse) (some "rainy")] ++
      .block (.closing .loop) none :: [.block (.closing .alt) none] := by decide +kernel
  have hearlier : [Event.block (.opening .loop) (some "again"),
      .block (.opening .alt) (some "sunny"), .message ⟨.solid, "A", "B", "go", false, none⟩,
      .block (.divider .altElse) (some "rainy")].foldlM Event.nest [] = .ok [.alt, .loop] := rfl
  have hfault : FirstFault crossed.diagram.events (.otherBlockOpen .loop .alt) :=
    .misfit hevents (foldlM_nest_eq_ok_iff.mp hearlier).1 (.otherOpen rfl nofun)
  refine ⟨hlayout.mpr hfault, ?_⟩
  rcases hclass hfault with ⟨-, hinvalid⟩ | ⟨hother, -⟩
  · exact hinvalid
  · exact absurd rfl (hother .loop .alt)

end SequenceChart
