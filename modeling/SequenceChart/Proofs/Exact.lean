import Mathlib.Algebra.Order.Field.Rat
import Mathlib.Data.Multiset.Lattice
import Mathlib.Order.WithBot
import Mathlib.Tactic.Linarith
import Mathlib.Tactic.NormNum
import SequenceChart.Geometry.Bounds

/-!
# Exact numbers

Geometry without rounding. Lengths and positions are rational numbers, and an edge of a box is a
position or lies at infinity on one of the two sides. Boxes are ordered by their edges: a box is
below another one if it lies inside. Joining is the least upper bound of that order and the empty
box is its least element, so that the hull of boxes does not depend on how they are put together.
-/

namespace SequenceChart

instance : Scale ℚ where
  natural := Nat.cast
  smaller := min
  larger := max
  magnitude := abs
  equal left right := decide (left = right)
  less left right := decide (left < right)
  atMost left right := decide (left ≤ right)

/-- A rational position, or one of the two infinities. -/
abbrev ExactEdge := WithBot (WithTop ℚ)

namespace ExactEdge

/-- Moves an edge; the infinities stay where they are. -/
def shift (edge : ExactEdge) (distance : ℚ) : ExactEdge :=
  WithBot.map (WithTop.map (· + distance)) edge

/-- The position of an edge, and zero for the infinities. -/
def position (edge : ExactEdge) : ℚ :=
  (edge.unbotD ⊤).untopD 0

end ExactEdge

instance : Edge ExactEdge where
  first := ⊥
  last := ⊤
  smaller := min
  larger := max
  less left right := decide (left < right)

instance : Placing ℚ ExactEdge where
  place position := ((position : WithTop ℚ) : ExactEdge)
  before edge length := edge.shift (-length)
  after edge length := edge.shift length
  distance start stop := stop.position - start.position

theorem place_le_place {left right : ℚ} :
    (place left : ExactEdge) ≤ place right ↔ left ≤ right :=
  WithBot.coe_le_coe.trans WithTop.coe_le_coe

theorem ExactEdge.le_shift (edge : ExactEdge) {distance : ℚ} (hdistance : 0 ≤ distance) :
    edge ≤ edge.shift distance := by
  induction edge using WithBot.recBotCoe with
  | bot => exact le_refl _
  | coe edge =>
      induction edge using WithTop.recTopCoe with
      | top => exact le_refl _
      | coe position => exact place_le_place.mpr (le_add_of_nonneg_right hdistance)

theorem ExactEdge.shift_le (edge : ExactEdge) {distance : ℚ} (hdistance : distance ≤ 0) :
    edge.shift distance ≤ edge := by
  induction edge using WithBot.recBotCoe with
  | bot => exact le_refl _
  | coe edge =>
      induction edge using WithTop.recTopCoe with
      | top => exact le_refl _
      | coe position => exact place_le_place.mpr (add_le_of_nonpos_right hdistance)

theorem ExactEdge.shift_mono {edge other : ExactEdge} (hle : edge ≤ other) (distance : ℚ) :
    edge.shift distance ≤ other.shift distance :=
  ((add_left_mono (a := distance)).withTop_map.withBot_map : Monotone _) hle

namespace Box

instance : PartialOrder (Box ExactEdge) where
  le box other :=
    other.startX ≤ box.startX ∧ other.startY ≤ box.startY ∧
      box.stopX ≤ other.stopX ∧ box.stopY ≤ other.stopY
  le_refl box := ⟨le_refl _, le_refl _, le_refl _, le_refl _⟩
  le_trans first second third hfirst hsecond :=
    ⟨hsecond.1.trans hfirst.1, hsecond.2.1.trans hfirst.2.1,
      hfirst.2.2.1.trans hsecond.2.2.1, hfirst.2.2.2.trans hsecond.2.2.2⟩
  le_antisymm first second hfirst hsecond := by
    cases first
    cases second
    congr 1
    · exact hsecond.1.antisymm hfirst.1
    · exact hsecond.2.1.antisymm hfirst.2.1
    · exact hfirst.2.2.1.antisymm hsecond.2.2.1
    · exact hfirst.2.2.2.antisymm hsecond.2.2.2

instance : SemilatticeSup (Box ExactEdge) where
  sup := join
  le_sup_left _ _ := ⟨min_le_left _ _, min_le_left _ _, le_max_left _ _, le_max_left _ _⟩
  le_sup_right _ _ := ⟨min_le_right _ _, min_le_right _ _, le_max_right _ _, le_max_right _ _⟩
  sup_le _ _ _ hfirst hsecond :=
    ⟨le_min hfirst.1 hsecond.1, le_min hfirst.2.1 hsecond.2.1,
      max_le hfirst.2.2.1 hsecond.2.2.1, max_le hfirst.2.2.2 hsecond.2.2.2⟩

instance : OrderBot (Box ExactEdge) where
  bot := empty
  bot_le _ := ⟨le_top, le_top, bot_le, bot_le⟩

theorem join_eq_sup (box other : Box ExactEdge) : box.join other = box ⊔ other := rfl

theorem ofCorners_flipX (x1 y1 x2 y2 : ExactEdge) :
    ofCorners x2 y1 x1 y2 = ofCorners x1 y1 x2 y2 := by
  unfold ofCorners
  congr 1
  · exact min_comm x2 x1
  · exact max_comm x2 x1

theorem ofCorners_flipY (x1 y1 x2 y2 : ExactEdge) :
    ofCorners x1 y2 x2 y1 = ofCorners x1 y1 x2 y2 := by
  unfold ofCorners
  congr 1
  · exact min_comm y2 y1
  · exact max_comm y2 y1

theorem le_expand (box : Box ExactEdge) {margin : ℚ} (hmargin : 0 ≤ margin) :
    box ≤ box.expand margin :=
  ⟨box.startX.shift_le (neg_nonpos.mpr hmargin), box.startY.shift_le (neg_nonpos.mpr hmargin),
    box.stopX.le_shift hmargin, box.stopY.le_shift hmargin⟩

theorem expand_mono {box other : Box ExactEdge} (hle : box ≤ other) (margin : ℚ) :
    box.expand margin ≤ other.expand margin :=
  ⟨ExactEdge.shift_mono hle.1 _, ExactEdge.shift_mono hle.2.1 _, ExactEdge.shift_mono hle.2.2.1 _,
    ExactEdge.shift_mono hle.2.2.2 _⟩

/-- The smallest box around all of the boxes. -/
def hull (boxes : List (Box ExactEdge)) : Box ExactEdge :=
  boxes.foldr join empty

theorem hull_eq_sup (boxes : List (Box ExactEdge)) :
    hull boxes = (boxes : Multiset (Box ExactEdge)).sup := rfl

@[simp]
theorem hull_nil : hull [] = ⊥ := rfl

@[simp]
theorem hull_cons (box : Box ExactEdge) (boxes : List (Box ExactEdge)) :
    hull (box :: boxes) = box ⊔ hull boxes := rfl

@[simp]
theorem hull_append (boxes others : List (Box ExactEdge)) :
    hull (boxes ++ others) = hull boxes ⊔ hull others := by
  rw [hull_eq_sup, ← Multiset.coe_add, Multiset.sup_add]
  rfl

theorem le_hull {box : Box ExactEdge} {boxes : List (Box ExactEdge)} (hmem : box ∈ boxes) :
    box ≤ hull boxes := by
  rw [hull_eq_sup]
  exact Multiset.le_sup (Multiset.mem_coe.mpr hmem)

theorem hull_le {bound : Box ExactEdge} {boxes : List (Box ExactEdge)}
    (hboxes : ∀ box ∈ boxes, box ≤ bound) : hull boxes ≤ bound := by
  rw [hull_eq_sup, Multiset.sup_le]
  exact fun box hmem => hboxes box (Multiset.mem_coe.mp hmem)

end Box

end SequenceChart
