import Mathlib.Data.Prod.Lex
import SequenceChart.Proofs.Exact

/-!
# The largest of some numbers

Floating-point numbers that are numbers are ordered by sign, exponent and mantissa, with the
infinities at both ends. What is not a number compares with nothing, and gives way wherever the
larger of two is taken: so the largest of some numbers is found whatever else stands among them.
-/

namespace SequenceChart

/-- A scale whose numbers are strictly ordered and whose larger of two is the one it says. What
does not equal itself is not a number and is not compared. -/
class OrderedScale (α : Type) [Scale α] : Prop where
  less_self (number : α) : Scale.less number number = false
  less_trans {first second third : α} : Scale.less first second = true →
    Scale.less second third = true → Scale.less first third = true
  less_or_less {first second third : α} : Scale.equal second second = true →
    Scale.less first third = true → Scale.less first second = true ∨ Scale.less second third = true
  isNumber_of_less {left right : α} : Scale.less left right = true →
    Scale.equal right right = true
  larger_eq {left : α} (right : α) : Scale.equal left left = true →
    Scale.larger left right = if Scale.less left right then right else left
  isNumber_zero : Scale.equal (0.0 : α) 0.0 = true

instance : OrderedScale ℚ where
  less_self number := decide_eq_false (lt_irrefl number)
  less_trans hfirst hsecond :=
    decide_eq_true ((of_decide_eq_true hfirst).trans (of_decide_eq_true hsecond))
  less_or_less {first second third} _ hless :=
    (lt_or_ge first second).imp decide_eq_true
      fun hle => decide_eq_true (hle.trans_lt (of_decide_eq_true hless))
  isNumber_of_less _ := decide_eq_true rfl
  larger_eq {left} right _ := by
    change max left right = if decide (left < right) = true then right else left
    by_cases hless : left < right
    · rw [if_pos (decide_eq_true hless), max_eq_right hless.le]
    · rw [if_neg (mt of_decide_eq_true hless), max_eq_left (not_lt.mp hless)]
  isNumber_zero := decide_eq_true rfl

/-! ### Floating-point numbers

A comparison takes the signs first, then the exponents and then the mantissas, and the other way
round below zero. So the rank of a number is a triple, and ranks are ordered lexicographically. -/

namespace FloatOrder

open Float.Model Float.Model.UnpackedFloat

/-- Where a number stands among the others: the sign decides first, then the exponent, then the
mantissa. -/
def rank : UnpackedFloat → ℤ ×ₗ ℤ ×ₗ ℤ
  | .infinity .negative => toLex (-2, toLex (0, 0))
  | .finite .negative mantissa exponent _ => toLex (-1, toLex (-exponent, -mantissa))
  | .zero _ => toLex (0, toLex (0, 0))
  | .finite .positive mantissa exponent _ => toLex (1, toLex (exponent, mantissa))
  | .infinity .positive => toLex (2, toLex (0, 0))
  | .notANumber => toLex (3, toLex (0, 0))

theorem lt_iff_rank_lt {left right : UnpackedFloat} (hleft : left ≠ .notANumber)
    (hright : right ≠ .notANumber) : left.lt right = true ↔ rank left < rank right := by
  rcases left with (_ | _) | _ | (_ | _) | ⟨_ | _, mantissa, exponent, _⟩ <;>
    rcases right with (_ | _) | _ | (_ | _) | ⟨_ | _, otherMantissa, otherExponent, _⟩
  all_goals first | exact absurd rfl hleft | exact absurd rfl hright | clear hleft hright
  all_goals dsimp only [UnpackedFloat.lt, UnpackedFloat.compare, rank]
  all_goals simp [Prod.Lex.lt_iff, Ordering.then_eq_lt, Ordering.then_eq_gt, compare_lt_iff_lt,
    compare_gt_iff_gt]
  all_goals decide

theorem lt_eq_true_iff {left right : UnpackedFloat} :
    left.lt right = true ↔ left ≠ .notANumber ∧ right ≠ .notANumber ∧ rank left < rank right := by
  constructor
  · intro hless
    have hleft : left ≠ .notANumber := by
      rintro rfl
      cases right <;> cases hless
    have hright : right ≠ .notANumber := by
      rintro rfl
      cases left <;> cases hless
    exact ⟨hleft, hright, (lt_iff_rank_lt hleft hright).mp hless⟩
  · rintro ⟨hleft, hright, hrank⟩
    exact (lt_iff_rank_lt hleft hright).mpr hrank

theorem beq_self_eq_true_iff {number : UnpackedFloat} :
    number.beq number = true ↔ number ≠ .notANumber := by
  constructor
  · rintro hequal rfl
    cases hequal
  · intro hnumber
    cases number with
    | notANumber => exact absurd rfl hnumber
    | zero => rfl
    | infinity sign => cases sign <;> rfl
    | finite sign mantissa exponent =>
        have hsame : (compare exponent exponent).then (compare mantissa mantissa) = .eq :=
          Ordering.then_eq_eq.mpr ⟨compare_eq_iff_eq.mpr rfl, compare_eq_iff_eq.mpr rfl⟩
        cases sign
        all_goals
          dsimp only [UnpackedFloat.beq, UnpackedFloat.compare]
          rw [hsame]
          rfl

theorem isNaN_eq_true_iff {number : UnpackedFloat} :
    number.isNaN = true ↔ number = .notANumber := by
  constructor
  · intro hnan
    cases number with
    | notANumber => rfl
    | infinity | zero | finite => cases hnan
  · rintro rfl
    rfl

theorem less_eq (left right : Float) :
    Scale.less left right = left.toModel.unpack.lt right.toModel.unpack := by
  change decide (decide (left.toModel.unpack.lt right.toModel.unpack = true) = true) = _
  rw [Bool.decide_coe, Bool.decide_coe]

theorem less_iff {left right : Float} :
    Scale.less left right = true ↔
      left.toModel.unpack ≠ .notANumber ∧ right.toModel.unpack ≠ .notANumber ∧
        rank left.toModel.unpack < rank right.toModel.unpack := by
  rw [less_eq, lt_eq_true_iff]

theorem equal_self_iff {number : Float} :
    Scale.equal number number = true ↔ number.toModel.unpack ≠ .notANumber :=
  beq_self_eq_true_iff

end FloatOrder

instance : OrderedScale Float where
  less_self number := by
    rw [Bool.eq_false_iff]
    exact fun hless => absurd (FloatOrder.less_iff.mp hless).2.2 (lt_irrefl _)
  less_trans hfirst hsecond := by
    obtain ⟨hleft, -, hbelow⟩ := FloatOrder.less_iff.mp hfirst
    obtain ⟨-, hright, habove⟩ := FloatOrder.less_iff.mp hsecond
    exact FloatOrder.less_iff.mpr ⟨hleft, hright, hbelow.trans habove⟩
  less_or_less {first second third} hsecond hless := by
    obtain ⟨hfirst, hthird, hbetween⟩ := FloatOrder.less_iff.mp hless
    have hnumber := FloatOrder.equal_self_iff.mp hsecond
    rcases lt_or_ge (FloatOrder.rank first.toModel.unpack) (FloatOrder.rank second.toModel.unpack)
      with hbelow | habove
    · exact .inl (FloatOrder.less_iff.mpr ⟨hfirst, hnumber, hbelow⟩)
    · exact .inr (FloatOrder.less_iff.mpr ⟨hnumber, hthird, habove.trans_lt hbetween⟩)
  isNumber_of_less hless := FloatOrder.equal_self_iff.mpr (FloatOrder.less_iff.mp hless).2.1
  larger_eq {left} right hleft := by
    have hnumber : left.isNaN = false := by
      rw [Bool.eq_false_iff]
      exact mt FloatOrder.isNaN_eq_true_iff.mp (FloatOrder.equal_self_iff.mp hleft)
    change (if (left.isNaN || decide (left < right)) = true then right else left) =
      if decide (left < right) = true then right else left
    rw [hnumber, Bool.false_or]
  isNumber_zero := by decide

variable {α : Type} [Scale α]

/-- The number is one of the values, and none of them is larger. -/
def IsLargest (values : List α) (number : α) : Prop :=
  number ∈ values ∧ Scale.equal number number = true ∧
    ∀ value ∈ values, Scale.less number value = false

variable [OrderedScale α]

/-- Taking the larger one again and again, from a number on, ends with the largest. -/
theorem isLargest_foldl {number : α} (hnumber : Scale.equal number number = true)
    (values : List α) : IsLargest (number :: values) (values.foldl Scale.larger number) := by
  induction values generalizing number with
  | nil =>
      exact ⟨List.mem_singleton_self _, hnumber,
        List.forall_mem_singleton.mpr (OrderedScale.less_self number)⟩
  | cons value values ih =>
      rw [List.foldl_cons, OrderedScale.larger_eq value hnumber]
      cases hless : Scale.less number value with
      | true =>
          rw [if_pos rfl]
          obtain ⟨hmem, hlargest, hnone⟩ := ih (OrderedScale.isNumber_of_less hless)
          refine ⟨List.mem_cons_of_mem _ hmem, hlargest, List.forall_mem_cons.mpr ⟨?_, hnone⟩⟩
          -- What is less than the old number is less than the one that has taken its place.
          rw [Bool.eq_false_iff]
          intro hbelow
          have hvalue := hnone value List.mem_cons_self
          rw [OrderedScale.less_trans hbelow hless] at hvalue
          exact Bool.noConfusion hvalue
      | false =>
          rw [if_neg Bool.false_ne_true]
          obtain ⟨hmem, hlargest, hnone⟩ := ih hnumber
          obtain ⟨hstart, hnone⟩ := List.forall_mem_cons.mp hnone
          refine ⟨?_, hlargest, List.forall_mem_cons.mpr ⟨hstart, List.forall_mem_cons.mpr
            ⟨?_, hnone⟩⟩⟩
          · rcases List.mem_cons.mp hmem with hmem | hmem
            · rw [hmem]
              exact List.mem_cons_self
            · exact List.mem_cons_of_mem _ (List.mem_cons_of_mem _ hmem)
          · rw [Bool.eq_false_iff]
            intro hbelow
            rcases OrderedScale.less_or_less hnumber hbelow with hfirst | hsecond
            · exact Bool.noConfusion (hstart.symm.trans hfirst)
            · exact Bool.noConfusion (hless.symm.trans hsecond)

end SequenceChart
