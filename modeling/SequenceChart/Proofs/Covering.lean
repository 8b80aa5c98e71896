import SequenceChart.Proofs.Exact

/-!
# What bounds cover

A box that is covered lies in the whole, or in a scope that is still open and will hand it on. What
is covered stays covered, whatever is done, unless the margin shrinks the scopes that are closed. In
the end no scope is open, and all that is covered lies in the whole.
-/

namespace SequenceChart

abbrev ExactScope := Scope ℚ ExactEdge

abbrev ExactBounds := Bounds ℚ ExactEdge

namespace Bounds

variable {bounds rest : ExactBounds} {box : Box ExactEdge} {closed : ExactScope}

/-- The box lies in the whole, or in a scope that is still open. -/
def Covers (bounds : ExactBounds) (box : Box ExactEdge) : Prop :=
  box ≤ bounds.whole ∨ ∃ scope ∈ bounds.scopes, box ≤ scope.extent

theorem Covers.mono (hcovers : bounds.Covers box) {inner : Box ExactEdge} (hinner : inner ≤ box) :
    bounds.Covers inner := by
  rcases hcovers with hwhole | ⟨scope, hmem, hscope⟩
  · exact .inl (hinner.trans hwhole)
  · exact .inr ⟨scope, hmem, hinner.trans hscope⟩

theorem Covers.le_whole (hcovers : bounds.Covers box) (hscopes : bounds.scopes = []) :
    box ≤ bounds.whole := by
  rcases hcovers with hwhole | ⟨scope, hmem, -⟩
  · exact hwhole
  · rw [hscopes] at hmem
    cases hmem

theorem covers_insert (bounds : ExactBounds) (box : Box ExactEdge) :
    (bounds.insert box).Covers box :=
  .inl le_sup_right

theorem Covers.insert (hcovers : bounds.Covers box) (other : Box ExactEdge) :
    (bounds.insert other).Covers box := by
  rcases hcovers with hwhole | ⟨scope, hmem, hscope⟩
  · exact .inl (le_sup_of_le_left hwhole)
  · exact .inr ⟨_, List.mem_map_of_mem hmem, le_sup_of_le_left hscope⟩

theorem whole_le_advance (bounds : ExactBounds) (distance : ℚ) :
    bounds.whole ≤ (bounds.advance distance).whole :=
  ⟨le_refl _, le_refl _, le_refl _, le_max_left _ _⟩

theorem Covers.advance (hcovers : bounds.Covers box) (distance : ℚ) :
    (bounds.advance distance).Covers box := by
  rcases hcovers with hwhole | hscope
  · exact .inl (hwhole.trans (whole_le_advance bounds distance))
  · exact .inr hscope

theorem Covers.openScope (hcovers : bounds.Covers box) : bounds.openScope.Covers box := by
  rcases hcovers with hwhole | ⟨scope, hmem, hscope⟩
  · exact .inl hwhole
  · exact .inr ⟨scope, List.mem_cons_of_mem _ hmem, hscope⟩

theorem Covers.addSection (hcovers : bounds.Covers box) :
    (bounds.addSection?.getD bounds).Covers box := by
  unfold addSection?
  split
  · exact hcovers
  · rename_i inner outer hscopes
    rcases hcovers with hwhole | ⟨scope, hmem, hscope⟩
    · exact .inl hwhole
    · rw [hscopes, List.mem_cons] at hmem
      rcases hmem with rfl | hmem
      · exact .inr ⟨_, List.mem_cons_self, hscope⟩
      · exact .inr ⟨scope, List.mem_cons_of_mem _ hmem, hscope⟩

theorem covers_includeInner (bounds : ExactBounds) (box : Box ExactEdge) :
    (bounds.includeInner box).Covers box := by
  unfold includeInner
  split
  · exact .inl le_sup_right
  · exact .inr ⟨_, List.mem_cons_self, le_sup_right⟩

theorem Covers.includeInner (hcovers : bounds.Covers box) (other : Box ExactEdge) :
    (bounds.includeInner other).Covers box := by
  unfold Bounds.includeInner
  split
  · rename_i hscopes
    exact .inl (le_sup_of_le_left (hcovers.le_whole hscopes))
  · rename_i inner outer hscopes
    rcases hcovers with hwhole | ⟨scope, hmem, hscope⟩
    · exact .inl hwhole
    · rw [hscopes, List.mem_cons] at hmem
      rcases hmem with rfl | hmem
      · exact .inr ⟨_, List.mem_cons_self, le_sup_of_le_left hscope⟩
      · exact .inr ⟨scope, List.mem_cons_of_mem _ hmem, hscope⟩

theorem closeScope?_eq_some (hclose : bounds.closeScope? = some (closed, rest)) :
    ∃ inner outer, bounds.scopes = inner :: outer ∧
      closed = { inner with extent := inner.extent.expand bounds.margin } ∧
      rest = ({ bounds with scopes := outer } : ExactBounds).includeInner closed.extent := by
  unfold closeScope? at hclose
  split at hclose
  · cases hclose
  · rename_i inner outer hscopes
    obtain ⟨rfl, rfl⟩ := Prod.mk.inj (Option.some.inj hclose)
    exact ⟨inner, outer, hscopes, rfl, rfl⟩

/-- A scope that is closed becomes a part of the next one. -/
theorem covers_closed (hclose : bounds.closeScope? = some (closed, rest)) :
    rest.Covers closed.extent := by
  obtain ⟨inner, outer, -, -, rfl⟩ := closeScope?_eq_some hclose
  exact covers_includeInner _ _

theorem Covers.closeScope (hcovers : bounds.Covers box) (hmargin : 0 ≤ bounds.margin)
    (hclose : bounds.closeScope? = some (closed, rest)) : rest.Covers box := by
  have hclosed := covers_closed hclose
  obtain ⟨inner, outer, hscopes, rfl, rfl⟩ := closeScope?_eq_some hclose
  rcases hcovers with hwhole | ⟨scope, hmem, hscope⟩
  · have houter : ({ bounds with scopes := outer } : ExactBounds).Covers box := .inl hwhole
    exact houter.includeInner _
  · rw [hscopes, List.mem_cons] at hmem
    rcases hmem with rfl | hmem
    · exact hclosed.mono (hscope.trans (Box.le_expand _ hmargin))
    · have houter : ({ bounds with scopes := outer } : ExactBounds).Covers box :=
        .inr ⟨scope, hmem, hscope⟩
      exact houter.includeInner _

end Bounds

end SequenceChart
