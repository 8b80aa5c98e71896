import SequenceChart.Proofs.Exact
import SequenceChart.Proofs.Rendering

/-!
# The row of the actors

Actors stand side by side in the order in which they are registered, none narrower than the settings
ask for, and with the margin between them. So one that is registered earlier stands further left.
-/

/-- Of two items that are found, the one that the earlier test finds comes first. -/
theorem List.Pairwise.of_find? {β : Type} {relation : β → β → Prop} {items : List β}
    (hpairwise : items.Pairwise relation) {first second : β → Bool} {left right : β}
    (hleft : items.find? first = some left) (hright : items.find? second = some right)
    (hbefore : items.findIdx first < items.findIdx second) : relation left right := by
  induction items with
  | nil => cases hleft
  | cons item rest ih =>
      obtain ⟨hrelated, hpairwise⟩ := List.pairwise_cons.mp hpairwise
      have hlater : second item = false := by
        by_contra hfound
        rw [List.findIdx_cons, List.findIdx_cons, eq_true_of_ne_false hfound] at hbefore
        exact Nat.not_lt_zero _ hbefore
      rw [List.find?_cons, hlater] at hright
      cases hfirst : first item with
      | true =>
          rw [List.find?_cons, hfirst] at hleft
          obtain rfl := Option.some.inj hleft
          exact hrelated right (List.mem_of_find?_eq_some hright)
      | false =>
          rw [List.find?_cons, hfirst] at hleft
          rw [List.findIdx_cons, List.findIdx_cons, hfirst, hlater] at hbefore
          exact ih hpairwise hleft hright (Nat.lt_of_succ_lt_succ hbefore)

namespace SequenceChart

namespace Drawing

variable {pen : Pen ℚ} {y x : ℚ} {actors : List Actor} {placed : PlacedActor ℚ}

theorem width_le_actorWidth (pen : Pen ℚ) (actor : Actor) :
    pen.settings.width ≤ actorWidth pen actor := by
  unfold actorWidth
  split
  · exact le_refl _
  · exact le_max_left _ _

theorem width_le_of_mem_placeActors (hmem : placed ∈ placeActors pen y x actors) :
    pen.settings.width ≤ placed.width := by
  induction actors generalizing x with
  | nil => cases hmem
  | cons actor rest ih =>
      rcases List.mem_cons.mp hmem with rfl | hmem
      · exact width_le_actorWidth pen actor
      · exact ih hmem

section Row

variable (hwidth : 0 ≤ pen.settings.width) (hmargin : 0 ≤ pen.settings.actorMargin)

include hwidth hmargin

theorem le_x_of_mem_placeActors (hmem : placed ∈ placeActors pen y x actors) : x ≤ placed.x := by
  induction actors generalizing x with
  | nil => cases hmem
  | cons actor rest ih =>
      rcases List.mem_cons.mp hmem with rfl | hmem
      · exact le_refl x
      · have hactor := width_le_actorWidth pen actor
        have hrest := ih hmem
        linarith

/-- Each actor stands to the right of those before it. -/
theorem pairwise_placeActors (actors : List Actor) : (placeActors pen y x actors).Pairwise
    fun left right => left.x + left.width + pen.settings.actorMargin ≤ right.x := by
  induction actors generalizing x with
  | nil => exact .nil
  | cons actor rest ih =>
      refine .cons (fun right hmem => ?_) ih
      have hright := le_x_of_mem_placeActors hwidth hmargin hmem
      rwa [← add_assoc] at hright

theorem actorSpan_le {drawing : Drawing ℚ ExactEdge}
    (hactors : drawing.actors = placeActors pen y x actors) :
    drawing.actorSpan.1 ≤ drawing.actorSpan.2 := by
  unfold actorSpan
  rw [hactors]
  cases actors with
  | nil => exact le_refl _
  | cons actor rest =>
      obtain ⟨last, hlast⟩ : ∃ last, (placeActors pen y x (actor :: rest)).getLast? = some last :=
        Option.isSome_iff_exists.mp (List.getLast?_isSome.mpr (List.cons_ne_nil _ _))
      have hmem := List.mem_of_getLast? hlast
      have hx := le_x_of_mem_placeActors hwidth hmargin hmem
      have hlastWidth := hwidth.trans (width_le_of_mem_placeActors hmem)
      rw [hlast]
      exact hx.trans (le_add_of_nonneg_right hlastWidth)

end Row

theorem actor_eq_ok_iff {drawing : Drawing ℚ ExactEdge} {name : String} :
    drawing.actor name = .ok placed ↔ drawing.actors.find? (·.name = name) = some placed := by
  unfold Drawing.actor
  split
  · rename_i found hfound
    rw [hfound]
    exact ⟨fun hok => congrArg some (Except.ok.inj hok), fun hok => congrArg Except.ok
      (Option.some.inj hok)⟩
  · rename_i hnone
    rw [hnone]
    exact ⟨nofun, nofun⟩

theorem name_of_find? {row : List (PlacedActor ℚ)} {name : String}
    (hfound : row.find? (·.name = name) = some placed) : placed.name = name := by
  simpa using List.find?_some hfound

/-- Where an actor stands in the row is where it is registered. -/
theorem findIdx_placeActors (pen : Pen ℚ) (y x : ℚ) (actors : List Actor) (name : String) :
    (placeActors pen y x actors).findIdx (·.name = name) =
      (actors.map Actor.name).idxOf name := by
  rw [← placeActors_names pen y x actors, List.idxOf, List.findIdx_map]
  rfl

end Drawing

end SequenceChart
