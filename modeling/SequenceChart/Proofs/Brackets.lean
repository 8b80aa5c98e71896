import Mathlib.Data.List.Induction
import SequenceChart.Diagram.Event

/-!
# Brackets

Activations and blocks are opened by one event and closed by another. Which closing belongs to an
opening is a matter of counting: in between as much is opened as is closed, and at no point more is
closed than is opened. Event by event, what is not closed yet lies on a stack, from which a closing
takes the latest opening.
-/

namespace SequenceChart

/-- The events that open something, and those that close it. -/
structure Brackets where
  opens : Event → Bool
  closes : Event → Bool
  apart : ∀ {event}, opens event = true → closes event = false

namespace Brackets

/-- At no point more is closed than is opened. -/
def Rises (brackets : Brackets) (events : List Event) : Prop :=
  ∀ before, before <+: events → before.countP brackets.closes ≤ before.countP brackets.opens

/-- All that is opened is closed, and nothing else is. -/
structure Settles (brackets : Brackets) (events : List Event) : Prop where
  rises : brackets.Rises events
  level : events.countP brackets.closes = events.countP brackets.opens

/-- An opening among the events, and the closing that belongs to it. -/
structure Pair (brackets : Brackets) (events : List Event) where
  before : List Event
  opening : Event
  inside : List Event
  closing : Event
  after : List Event
  events_eq : events = before ++ opening :: (inside ++ closing :: after)
  opens : brackets.opens opening = true
  closes : brackets.closes closing = true
  settles : brackets.Settles inside

/-- What an event does to the stack of openings, each given by the events before it. -/
def next (brackets : Brackets) (before : List Event) (stack : List (List Event)) (event : Event) :
    List (List Event) :=
  if brackets.opens event then before :: stack
  else if brackets.closes event then stack.tail
  else stack

def unclosedFrom (brackets : Brackets) (before : List Event) (stack : List (List Event)) :
    List Event → List (List Event)
  | [] => stack
  | event :: rest =>
      unclosedFrom brackets (before ++ [event]) (brackets.next before stack event) rest

/-- The openings that are not closed, the latest first. -/
def unclosed (brackets : Brackets) (events : List Event) : List (List Event) :=
  brackets.unclosedFrom [] [] events

variable {brackets : Brackets} {events before inside : List Event} {event : Event}

theorem unclosedFrom_append (stack : List (List Event)) :
    brackets.unclosedFrom before stack (events ++ [event]) =
      brackets.next (before ++ events) (brackets.unclosedFrom before stack events) event := by
  induction events generalizing before stack with
  | nil => rw [List.append_nil]; rfl
  | cons first rest ih =>
      rw [List.cons_append, unclosedFrom, unclosedFrom, ih, List.append_assoc]
      rfl

theorem unclosed_append : brackets.unclosed (events ++ [event]) =
    brackets.next events (brackets.unclosed events) event :=
  unclosedFrom_append []

theorem unclosed_opening (hopens : brackets.opens event = true) :
    brackets.unclosed (events ++ [event]) = events :: brackets.unclosed events := by
  rw [unclosed_append, next, if_pos hopens]

theorem unclosed_closing (hcloses : brackets.closes event = true) :
    brackets.unclosed (events ++ [event]) = (brackets.unclosed events).tail := by
  have hopens : ¬brackets.opens event = true := fun hopens => by
    rw [brackets.apart hopens] at hcloses
    cases hcloses
  rw [unclosed_append, next, if_neg hopens, if_pos hcloses]

theorem unclosed_plain (hopens : brackets.opens event = false)
    (hcloses : brackets.closes event = false) :
    brackets.unclosed (events ++ [event]) = brackets.unclosed events := by
  rw [unclosed_append, next, hopens, hcloses]
  rfl

theorem Rises.of_append {more : List Event} (hrises : brackets.Rises (events ++ more)) :
    brackets.Rises events :=
  fun before hbefore => hrises before (hbefore.trans (List.prefix_append _ _))

/-- A closing needs something that is left open. -/
theorem Rises.append (hrises : brackets.Rises events)
    (hclosing : brackets.closes event = true →
      events.countP brackets.closes < events.countP brackets.opens) :
    brackets.Rises (events ++ [event]) := by
  intro before hbefore
  rcases List.prefix_concat_iff.mp hbefore with rfl | hbefore
  · rw [List.countP_append, List.countP_append, List.countP_singleton]
    split
    · exact Nat.le_add_right_of_le (hclosing ‹_›)
    · exact Nat.le_add_right_of_le (hrises events List.prefix_rfl)
  · exact hrises before hbefore

theorem rises_nil : brackets.Rises [] := by
  intro before hbefore
  rw [List.prefix_nil.mp hbefore]
  exact Nat.le_refl 0

/-! ### What lies on the stack

On the stack lie the events before each opening. One stays there as long as no more is closed than
is opened behind it, and above it lie those that have been opened since. -/

/-- Where nothing else is closed, the stack only grows, and by as much as is left open. -/
theorem exists_unclosed_append (before : List Event) (hrises : brackets.Rises inside) :
    ∃ latest, brackets.unclosed (before ++ inside) = latest ++ brackets.unclosed before ∧
      latest.length + inside.countP brackets.closes = inside.countP brackets.opens := by
  induction inside using List.reverseRecOn with
  | nil => exact ⟨[], by rw [List.append_nil, List.nil_append], rfl⟩
  | append_singleton inside event ih =>
      obtain ⟨latest, hlatest, hlength⟩ := ih hrises.of_append
      rw [← List.append_assoc, List.countP_append, List.countP_append, List.countP_singleton,
        List.countP_singleton]
      by_cases hopens : brackets.opens event = true
      · refine ⟨(before ++ inside) :: latest, ?_, ?_⟩
        · rw [unclosed_opening hopens, hlatest, List.cons_append]
        · rw [if_pos hopens, brackets.apart hopens, List.length_cons, ← hlength]
          simp only [Bool.false_eq_true, if_false]
          omega
      · by_cases hcloses : brackets.closes event = true
        · have hfirst := hrises _ List.prefix_rfl
          rw [List.countP_append, List.countP_append, List.countP_singleton,
            List.countP_singleton, if_pos hcloses, if_neg hopens] at hfirst
          obtain ⟨top, latest, rfl⟩ : ∃ top rest, latest = top :: rest :=
            List.exists_cons_of_length_pos (by omega)
          rw [List.length_cons] at hlength
          refine ⟨latest, ?_, ?_⟩
          · rw [unclosed_closing hcloses, hlatest, List.cons_append, List.tail_cons]
          · rw [if_pos hcloses, if_neg hopens]
            omega
        · refine ⟨latest, ?_, ?_⟩
          · rw [unclosed_plain (eq_false_of_ne_true hopens) (eq_false_of_ne_true hcloses), hlatest]
          · rw [if_neg hcloses, if_neg hopens]
            exact hlength

theorem length_unclosed (hrises : brackets.Rises events) :
    (brackets.unclosed events).length =
      events.countP brackets.opens - events.countP brackets.closes := by
  obtain ⟨latest, hlatest, hlength⟩ := exists_unclosed_append [] hrises
  have hstack : brackets.unclosed events = latest :=
    hlatest.trans (List.append_nil latest)
  rw [hstack]
  omega

theorem length_lt_of_mem_unclosed (hmem : before ∈ brackets.unclosed events) :
    before.length < events.length := by
  induction events using List.reverseRecOn with
  | nil => cases hmem
  | append_singleton events event ih =>
      have hearlier (hmem : before ∈ brackets.unclosed events) :
          before.length < (events ++ [event]).length := by
        rw [List.length_append]
        exact Nat.lt_add_right 1 (ih hmem)
      rw [unclosed_append, next] at hmem
      split at hmem
      · rcases List.mem_cons.mp hmem with rfl | hmem
        · rw [List.length_append]
          exact Nat.lt_succ_self _
        · exact hearlier hmem
      · split at hmem
        · exact hearlier (List.mem_of_mem_tail hmem)
        · exact hearlier hmem

/-- After an opening on the stack, at no point more is closed than is opened. -/
theorem exists_opening (hmem : before ∈ brackets.unclosed events) :
    ∃ opening inside, events = before ++ opening :: inside ∧ brackets.opens opening = true ∧
      brackets.Rises inside := by
  induction events using List.reverseRecOn with
  | nil => cases hmem
  | append_singleton events event ih =>
      by_cases hopens : brackets.opens event = true
      · rw [unclosed_opening hopens, List.mem_cons] at hmem
        rcases hmem with rfl | hmem
        · exact ⟨event, [], rfl, hopens, rises_nil⟩
        · obtain ⟨opening, inside, rfl, hopening, hrises⟩ := ih hmem
          refine ⟨opening, inside ++ [event], List.append_assoc .., hopening,
            hrises.append fun hcloses => ?_⟩
          rw [brackets.apart hopens] at hcloses
          cases hcloses
      · by_cases hcloses : brackets.closes event = true
        · rw [unclosed_closing hcloses] at hmem
          obtain ⟨opening, inside, rfl, hopening, hrises⟩ := ih (List.mem_of_mem_tail hmem)
          refine ⟨opening, inside ++ [event], List.append_assoc .., hopening,
            hrises.append fun _ => ?_⟩
          obtain ⟨latest, hlatest, hlength⟩ :=
            exists_unclosed_append (before ++ [opening]) hrises
          rw [List.append_assoc, List.singleton_append, unclosed_opening hopening] at hlatest
          -- The closing takes a later opening than this one, so one was left open inside.
          have hlater : latest ≠ [] := by
            rintro rfl
            rw [hlatest] at hmem
            exact Nat.lt_irrefl _ (length_lt_of_mem_unclosed hmem)
          have hpositive := List.length_pos_iff.mpr hlater
          omega
        · rw [unclosed_plain (eq_false_of_ne_true hopens) (eq_false_of_ne_true hcloses)] at hmem
          obtain ⟨opening, inside, rfl, hopening, hrises⟩ := ih hmem
          exact ⟨opening, inside ++ [event], List.append_assoc .., hopening,
            hrises.append fun hclosing => absurd hclosing hcloses⟩

theorem mem_unclosed_iff : before ∈ brackets.unclosed events ↔
    ∃ opening inside, events = before ++ opening :: inside ∧ brackets.opens opening = true ∧
      brackets.Rises inside := by
  refine ⟨exists_opening, ?_⟩
  rintro ⟨opening, inside, rfl, hopening, hrises⟩
  obtain ⟨latest, hlatest, -⟩ := exists_unclosed_append (before ++ [opening]) hrises
  rw [List.append_assoc, List.singleton_append, unclosed_opening hopening] at hlatest
  rw [hlatest]
  exact List.mem_append_right _ List.mem_cons_self

/-- Each opening on the stack comes after those below it. -/
theorem pairwise_unclosed (brackets : Brackets) (events : List Event) :
    (brackets.unclosed events).Pairwise fun later earlier =>
      ∃ opening inside, later = earlier ++ opening :: inside := by
  induction events using List.reverseRecOn with
  | nil => exact .nil
  | append_singleton events event ih =>
      rw [unclosed_append, next]
      split
      · refine .cons (fun earlier hmem => ?_) ih
        obtain ⟨opening, inside, hevents, -⟩ := exists_opening hmem
        exact ⟨opening, inside, hevents⟩
      · split
        · exact ih.tail
        · exact ih

/-- Between the latest opening that is not closed and the end, all that is opened is closed. -/
theorem settles_of_unclosed {stack : List (List Event)}
    (hunclosed : brackets.unclosed events = before :: stack) :
    ∃ opening inside, events = before ++ opening :: inside ∧ brackets.opens opening = true ∧
      brackets.Settles inside ∧ stack = brackets.unclosed before := by
  obtain ⟨opening, inside, rfl, hopening, hrises⟩ :=
    exists_opening (hunclosed ▸ List.mem_cons_self : before ∈ brackets.unclosed events)
  obtain ⟨latest, hlatest, hlength⟩ :=
    exists_unclosed_append (before ++ [opening]) hrises
  rw [List.append_assoc, List.singleton_append, unclosed_opening hopening, hunclosed] at hlatest
  cases latest with
  | nil =>
      obtain ⟨-, rfl⟩ := List.cons.inj hlatest
      exact ⟨opening, inside, rfl, hopening, ⟨hrises, by simpa using hlength⟩, rfl⟩
  | cons top rest =>
      have hlast := brackets.pairwise_unclosed (before ++ opening :: inside)
      rw [hunclosed, hlatest] at hlast
      obtain ⟨rfl, -⟩ := List.cons.inj hlatest
      obtain ⟨event, more, hself⟩ := (List.pairwise_cons.mp hlast).1 before
        (List.mem_append_right _ List.mem_cons_self)
      have hlength := congrArg List.length hself
      rw [List.length_append, List.length_cons] at hlength
      omega

/-- An opening on the stack lies as deep as it was opened. -/
theorem depths_unclosed (hrises : brackets.Rises events) :
    (brackets.unclosed events).map
        (fun before => before.countP brackets.opens - before.countP brackets.closes) =
      (List.range (brackets.unclosed events).length).reverse := by
  generalize hstack : brackets.unclosed events = stack
  induction stack generalizing events with
  | nil => rfl
  | cons before stack ih =>
      obtain ⟨opening, inside, rfl, -, -, hrest⟩ := settles_of_unclosed hstack
      have hbefore : brackets.Rises before := hrises.of_append
      rw [List.map_cons, ih hbefore hrest.symm, ← length_unclosed hbefore, ← hrest,
        List.length_cons, List.range_succ, List.reverse_append]
      rfl

namespace Pair

variable (pair : brackets.Pair events)

/-- The events before the closing. -/
def filled : List Event :=
  pair.before ++ pair.opening :: pair.inside

/-- How many events come before the opening. -/
def start : Nat :=
  pair.before.length

/-- How many events come before the closing. -/
def stop : Nat :=
  pair.filled.length

/-- Of a list that has an item for each event that counts, the items of the events inside. -/
def slice {β : Type} (counts : Event → Bool) (items : List β) : List β :=
  (items.drop (pair.before.countP counts)).take (pair.inside.countP counts)

theorem events_eq_filled : events = pair.filled ++ pair.closing :: pair.after := by
  rw [filled, List.append_assoc, List.cons_append]
  exact pair.events_eq

theorem unclosed_filled :
    brackets.unclosed pair.filled = pair.before :: brackets.unclosed pair.before := by
  obtain ⟨latest, hlatest, hlength⟩ :=
    exists_unclosed_append (pair.before ++ [pair.opening]) pair.settles.rises
  have hnone : latest = [] := List.length_eq_zero_iff.mp (by
    have hlevel := pair.settles.level
    omega)
  rw [List.append_assoc, List.singleton_append, unclosed_opening pair.opens, hnone] at hlatest
  exact hlatest

theorem filled_isPrefix : pair.filled <+: events :=
  ⟨pair.closing :: pair.after, pair.events_eq_filled.symm⟩

/-- A pair that is closed before another one is opened. -/
theorem closed_isPrefix {lower : brackets.Pair events} (hbefore : pair.stop < lower.start) :
    pair.filled ++ [pair.closing] <+: lower.before := by
  have hclosed : pair.filled ++ [pair.closing] <+: events :=
    ⟨pair.after, by rw [List.append_assoc, List.singleton_append, ← pair.events_eq_filled]⟩
  refine List.prefix_of_prefix_length_le hclosed ⟨_, lower.events_eq.symm⟩ ?_
  rw [List.length_append]
  exact hbefore

theorem slice_eq {β : Type} {counts : Event → Bool} {items shown : List β}
    (hopening : counts pair.opening = false) (hlength : shown.length = pair.filled.countP counts)
    (hshown : shown <+: items) :
    pair.slice counts items = shown.drop (pair.before.countP counts) := by
  obtain ⟨more, rfl⟩ := hshown
  rw [filled, List.countP_append, List.countP_cons, hopening] at hlength
  have hinside : (shown.drop (pair.before.countP counts)).length = pair.inside.countP counts := by
    rw [List.length_drop, hlength]
    simp
  rw [slice, List.drop_append_of_le_length (by omega), ← hinside, List.take_left]

end Pair

/-- A closing closes what was opened latest. -/
theorem exists_pair {filled after : List Event} {closing : Event} {stack : List (List Event)}
    (hevents : events = filled ++ closing :: after) (hcloses : brackets.closes closing = true)
    (hunclosed : brackets.unclosed filled = before :: stack) :
    ∃ pair : brackets.Pair events, pair.before = before ∧ pair.filled = filled := by
  obtain ⟨opening, inside, rfl, hopening, hsettles, -⟩ := settles_of_unclosed hunclosed
  rw [List.append_assoc, List.cons_append] at hevents
  exact ⟨⟨before, opening, inside, closing, after, hevents, hopening, hcloses, hsettles⟩, rfl, rfl⟩

end Brackets

end SequenceChart
