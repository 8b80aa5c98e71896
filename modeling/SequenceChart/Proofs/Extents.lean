import SequenceChart.Layout.Drawing
import SequenceChart.Proofs.Covering

/-!
# Extents between positions

The boxes of a drawing lie between positions. An extent that is made of such boxes is never infinite
outwards: it is either empty in a direction or finite. An open scope, moreover, is never empty from
top to bottom, since it spans the line at which it was opened.
-/

namespace SequenceChart

theorem min_place (left right : ℚ) :
    min (place left : ExactEdge) (place right) = place (min left right) := by
  rcases le_total left right with hle | hle
  · rw [min_eq_left hle, min_eq_left (place_le_place.mpr hle)]
  · rw [min_eq_right hle, min_eq_right (place_le_place.mpr hle)]

theorem max_place (left right : ℚ) :
    max (place left : ExactEdge) (place right) = place (max left right) := by
  rcases le_total left right with hle | hle
  · rw [max_eq_right hle, max_eq_right (place_le_place.mpr hle)]
  · rw [max_eq_left hle, max_eq_left (place_le_place.mpr hle)]

theorem boxAt_eq (x1 y1 x2 y2 : ℚ) :
    (boxAt x1 y1 x2 y2 : Box ExactEdge) =
      { startX := place (min x1 x2), startY := place (min y1 y2)
        stopX := place (max x1 x2), stopY := place (max y1 y2) } := by
  rw [← min_place, ← min_place, ← max_place, ← max_place]
  rfl

theorem boxAt_le_boxAt_iff {x1 y1 x2 y2 x1' y1' x2' y2' : ℚ} :
    (boxAt x1 y1 x2 y2 : Box ExactEdge) ≤ boxAt x1' y1' x2' y2' ↔
      min x1' x2' ≤ min x1 x2 ∧ min y1' y2' ≤ min y1 y2 ∧
        max x1 x2 ≤ max x1' x2' ∧ max y1 y2 ≤ max y1' y2' := by
  rw [boxAt_eq, boxAt_eq]
  exact and_congr place_le_place
    (and_congr place_le_place (and_congr place_le_place place_le_place))

namespace Box

/-- The box is not infinite outwards. -/
structure Bounded (box : Box ExactEdge) : Prop where
  startX : box.startX ≠ ⊥
  startY : box.startY ≠ ⊥
  stopX : box.stopX ≠ ⊤
  stopY : box.stopY ≠ ⊤

/-- All edges lie at positions. -/
def IsFinite (box : Box ExactEdge) : Prop :=
  ∃ startX startY stopX stopY : ℚ, box =
    { startX := place startX, startY := place startY, stopX := place stopX, stopY := place stopY }

/-- The box between its own corners, also if its edges are the wrong way round. -/
def corners (box : Box ExactEdge) : Box ExactEdge :=
  .ofCorners box.startX box.startY box.stopX box.stopY

end Box

theorem place_ne_bot (position : ℚ) : (place position : ExactEdge) ≠ ⊥ :=
  WithBot.coe_ne_bot

theorem place_ne_top (position : ℚ) : (place position : ExactEdge) ≠ ⊤ := by
  intro heq
  exact WithTop.coe_ne_top (WithBot.coe_injective heq)

theorem ExactEdge.exists_place {edge : ExactEdge} (hbot : edge ≠ ⊥) (htop : edge ≠ ⊤) :
    ∃ position : ℚ, edge = place position := by
  induction edge using WithBot.recBotCoe with
  | bot => exact absurd rfl hbot
  | coe edge =>
      induction edge using WithTop.recTopCoe with
      | top => exact absurd rfl htop
      | coe position => exact ⟨position, rfl⟩

theorem ExactEdge.shift_ne_bot {edge : ExactEdge} (hedge : edge ≠ ⊥) (distance : ℚ) :
    edge.shift distance ≠ ⊥ := by
  induction edge using WithBot.recBotCoe with
  | bot => exact absurd rfl hedge
  | coe edge => exact WithBot.coe_ne_bot

theorem ExactEdge.shift_ne_top {edge : ExactEdge} (hedge : edge ≠ ⊤) (distance : ℚ) :
    edge.shift distance ≠ ⊤ := by
  induction edge using WithBot.recBotCoe with
  | bot => exact bot_ne_top
  | coe edge =>
      induction edge using WithTop.recTopCoe with
      | top => exact absurd rfl hedge
      | coe position => exact place_ne_top (position + distance)

namespace Box

variable {box other : Box ExactEdge}

theorem bounded_empty : (empty : Box ExactEdge).Bounded :=
  ⟨top_ne_bot, top_ne_bot, bot_ne_top, bot_ne_top⟩

theorem bounded_boxAt (x1 y1 x2 y2 : ℚ) : (boxAt x1 y1 x2 y2 : Box ExactEdge).Bounded := by
  rw [boxAt_eq]
  exact ⟨place_ne_bot _, place_ne_bot _, place_ne_top _, place_ne_top _⟩

theorem Bounded.sup (hbox : box.Bounded) (hother : other.Bounded) : (box ⊔ other).Bounded where
  startX := (lt_min hbox.startX.bot_lt hother.startX.bot_lt).ne'
  startY := (lt_min hbox.startY.bot_lt hother.startY.bot_lt).ne'
  stopX := (max_lt hbox.stopX.lt_top hother.stopX.lt_top).ne
  stopY := (max_lt hbox.stopY.lt_top hother.stopY.lt_top).ne

theorem Bounded.expand (hbox : box.Bounded) (margin : ℚ) : (box.expand margin).Bounded where
  startX := ExactEdge.shift_ne_bot hbox.startX _
  startY := ExactEdge.shift_ne_bot hbox.startY _
  stopX := ExactEdge.shift_ne_top hbox.stopX _
  stopY := ExactEdge.shift_ne_top hbox.stopY _

/-- A box around positions is finite, unless it is infinite outwards. -/
theorem Bounded.isFinite (hbox : box.Bounded) {x1 y1 x2 y2 : ℚ}
    (hle : boxAt x1 y1 x2 y2 ≤ box) : box.IsFinite := by
  rw [boxAt_eq] at hle
  obtain ⟨startX, hstartX⟩ := ExactEdge.exists_place hbox.startX
    (hle.1.trans_lt (place_ne_top _).lt_top).ne
  obtain ⟨startY, hstartY⟩ := ExactEdge.exists_place hbox.startY
    (hle.2.1.trans_lt (place_ne_top _).lt_top).ne
  obtain ⟨stopX, hstopX⟩ := ExactEdge.exists_place
    ((place_ne_bot _).bot_lt.trans_le hle.2.2.1).ne' hbox.stopX
  obtain ⟨stopY, hstopY⟩ := ExactEdge.exists_place
    ((place_ne_bot _).bot_lt.trans_le hle.2.2.2).ne' hbox.stopY
  exact ⟨startX, startY, stopX, stopY, by rw [← hstartX, ← hstartY, ← hstopX, ← hstopY]⟩

theorem corners_eq_self (hx : box.startX ≤ box.stopX) (hy : box.startY ≤ box.stopY) :
    box.corners = box := by
  have hstartX : min box.startX box.stopX = box.startX := min_eq_left hx
  have hstartY : min box.startY box.stopY = box.startY := min_eq_left hy
  have hstopX : max box.startX box.stopX = box.stopX := max_eq_right hx
  have hstopY : max box.startY box.stopY = box.stopY := max_eq_right hy
  calc
    box.corners =
        { startX := min box.startX box.stopX, startY := min box.startY box.stopY
          stopX := max box.startX box.stopX, stopY := max box.startY box.stopY } := rfl
    _ = box := by rw [hstartX, hstartY, hstopX, hstopY]

end Box

/-- The extent is not infinite outwards and spans the line at which the scope was opened. -/
structure Scope.Tame (scope : ExactScope) : Prop where
  bounded : scope.extent.Bounded
  startY : scope.extent.startY ≤ place scope.openedAt
  stopY : place scope.openedAt ≤ scope.extent.stopY

theorem Scope.Tame.include {scope : ExactScope} (htame : scope.Tame) {box : Box ExactEdge}
    (hbox : box.Bounded) : (scope.include box).Tame where
  bounded := htame.bounded.sup hbox
  startY := (min_le_left _ _).trans htame.startY
  stopY := htame.stopY.trans (le_max_left _ _)

theorem Scope.Tame.expand {scope : ExactScope} (htame : scope.Tame) {margin : ℚ}
    (hmargin : 0 ≤ margin) :
    ({ scope with extent := scope.extent.expand margin } : ExactScope).Tame where
  bounded := htame.bounded.expand margin
  startY := (Box.le_expand _ hmargin).2.1.trans htame.startY
  stopY := htame.stopY.trans (Box.le_expand _ hmargin).2.2.2

namespace Bounds

/-- No extent is infinite outwards. -/
structure Tame (bounds : ExactBounds) : Prop where
  whole : bounds.whole.Bounded
  scopes : ∀ scope ∈ bounds.scopes, scope.Tame

variable {bounds rest : ExactBounds}

theorem tame_start (margin : ℚ) : (start margin : ExactBounds).Tame :=
  ⟨Box.bounded_empty, fun _ hmem => by cases hmem⟩

theorem Tame.insert (htame : bounds.Tame) {box : Box ExactEdge} (hbox : box.Bounded) :
    (bounds.insert box).Tame := by
  refine ⟨htame.whole.sup hbox, fun scope hmem => ?_⟩
  obtain ⟨inner, hinner, rfl⟩ := List.mem_map.mp hmem
  exact (htame.scopes inner hinner).include hbox

theorem Tame.advance (htame : bounds.Tame) (distance : ℚ) : (bounds.advance distance).Tame where
  whole :=
    { startX := htame.whole.startX
      startY := htame.whole.startY
      stopX := htame.whole.stopX
      stopY := (max_lt htame.whole.stopY.lt_top (place_ne_top _).lt_top).ne }
  scopes := htame.scopes

theorem Tame.openScope (htame : bounds.Tame) : bounds.openScope.Tame := by
  refine ⟨htame.whole, fun scope hmem => ?_⟩
  rcases List.mem_cons.mp hmem with rfl | hmem
  · exact ⟨⟨top_ne_bot, place_ne_bot _, bot_ne_top, place_ne_top _⟩, le_refl _, le_refl _⟩
  · exact htame.scopes scope hmem

theorem Tame.addSection (htame : bounds.Tame) : (bounds.addSection?.getD bounds).Tame := by
  unfold addSection?
  split
  · exact htame
  · rename_i inner outer hscopes
    refine ⟨htame.whole, fun scope hmem => ?_⟩
    rcases List.mem_cons.mp hmem with rfl | hmem
    · have hinner := htame.scopes inner (hscopes ▸ List.mem_cons_self)
      exact ⟨hinner.bounded, hinner.startY, hinner.stopY⟩
    · exact htame.scopes scope (hscopes ▸ List.mem_cons_of_mem _ hmem)

theorem Tame.includeInner (htame : bounds.Tame) {box : Box ExactEdge} (hbox : box.Bounded) :
    (bounds.includeInner box).Tame := by
  unfold Bounds.includeInner
  split
  · exact ⟨htame.whole.sup hbox, htame.scopes⟩
  · rename_i inner outer hscopes
    refine ⟨htame.whole, fun scope hmem => ?_⟩
    rcases List.mem_cons.mp hmem with rfl | hmem
    · exact (htame.scopes inner (hscopes ▸ List.mem_cons_self)).include hbox
    · exact htame.scopes scope (hscopes ▸ List.mem_cons_of_mem _ hmem)

theorem Tame.closeScope (htame : bounds.Tame) (hmargin : 0 ≤ bounds.margin) {closed : ExactScope}
    (hclose : bounds.closeScope? = some (closed, rest)) : closed.Tame ∧ rest.Tame := by
  obtain ⟨inner, outer, hscopes, rfl, rfl⟩ := closeScope?_eq_some hclose
  have hclosed := (htame.scopes inner (hscopes ▸ List.mem_cons_self)).expand hmargin
  have houter : ({ bounds with scopes := outer } : ExactBounds).Tame :=
    ⟨htame.whole, fun scope hmem => htame.scopes scope (hscopes ▸ List.mem_cons_of_mem _ hmem)⟩
  exact ⟨hclosed, houter.includeInner hclosed.bounded⟩

end Bounds

end SequenceChart
