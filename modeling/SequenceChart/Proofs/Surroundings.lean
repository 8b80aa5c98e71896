import SequenceChart.Proofs.Growth
import SequenceChart.Proofs.Heights
import SequenceChart.Proofs.Rows

/-!
# What blocks surround

While a block is open, what is drawn inside of it lies in the extent of its scope or in that of a
scope further inside, which becomes a part of it when it is closed. So when the block is closed
itself, everything drawn inside lies in its extent, and the extent is widened by the margin. A block
in which nothing is drawn has no extent from left to right; its box is inserted once more when it is
known, into all scopes that are still open.
-/

namespace SequenceChart

namespace Box

/-- The box is finite, and its edges are the right way round. -/
structure Proper (box : Box ExactEdge) : Prop where
  finite : box.IsFinite
  startX_le : box.startX ≤ box.stopX
  startY_le : box.startY ≤ box.stopY

theorem proper_boxAt (x1 y1 x2 y2 : ℚ) : (boxAt x1 y1 x2 y2 : Box ExactEdge).Proper where
  finite := ⟨_, _, _, _, boxAt_eq x1 y1 x2 y2⟩
  startX_le := min_le_max
  startY_le := min_le_max

theorem Bounded.proper {box : Box ExactEdge} (hbox : box.Bounded) (hx : box.startX ≤ box.stopX)
    (hy : box.startY ≤ box.stopY) : box.Proper := by
  obtain ⟨startX, hstartX⟩ := ExactEdge.exists_place hbox.startX (hx.trans_lt hbox.stopX.lt_top).ne
  obtain ⟨startY, hstartY⟩ := ExactEdge.exists_place hbox.startY (hy.trans_lt hbox.stopY.lt_top).ne
  obtain ⟨stopX, hstopX⟩ :=
    ExactEdge.exists_place (hbox.startX.bot_lt.trans_le hx).ne' hbox.stopX
  obtain ⟨stopY, hstopY⟩ :=
    ExactEdge.exists_place (hbox.startY.bot_lt.trans_le hy).ne' hbox.stopY
  exact ⟨⟨startX, startY, stopX, stopY, by rw [← hstartX, ← hstartY, ← hstopX, ← hstopY]⟩, hx, hy⟩

end Box

/-- No extent gets smaller. -/
def Scopes.Grow : List ExactScope → List ExactScope → Prop :=
  List.Forall₂ fun scope next => scope.extent ≤ next.extent

theorem Scopes.Grow.refl (scopes : List ExactScope) : Scopes.Grow scopes scopes :=
  List.forall₂_same.mpr fun _ _ => le_refl _

namespace Bounds

theorem insert_grow (bounds : ExactBounds) (box : Box ExactEdge) :
    Scopes.Grow bounds.scopes (bounds.insert box).scopes := by
  rw [Scopes.Grow, insert, List.forall₂_map_right_iff, List.forall₂_same]
  exact fun scope _ => le_sup_left

theorem le_head_insert (bounds : ExactBounds) (box : Box ExactEdge) :
    ∀ first ∈ (bounds.insert box).scopes.head?, box ≤ first.extent := by
  intro first hfirst
  obtain ⟨scope, -, rfl⟩ := List.mem_map.mp (List.mem_of_mem_head? hfirst)
  exact le_sup_right

theorem includeInner_grow (bounds : ExactBounds) (box : Box ExactEdge) :
    Scopes.Grow bounds.scopes (bounds.includeInner box).scopes := by
  unfold includeInner
  split
  · exact .refl bounds.scopes
  · rename_i inner outer hscopes
    rw [hscopes]
    exact .cons le_sup_left (Scopes.Grow.refl outer)

theorem le_head_includeInner (bounds : ExactBounds) (box : Box ExactEdge) :
    ∀ first ∈ (bounds.includeInner box).scopes.head?, box ≤ first.extent := by
  unfold includeInner
  split
  · rename_i hscopes
    intro first hfirst
    rw [hscopes] at hfirst
    cases hfirst
  · intro first hfirst
    rw [← Option.some.inj hfirst]
    exact le_sup_right

theorem addSection_grow (bounds : ExactBounds) :
    Scopes.Grow bounds.scopes (bounds.addSection?.getD bounds).scopes := by
  unfold addSection?
  split
  · exact .refl bounds.scopes
  · rename_i inner outer hscopes
    rw [hscopes]
    exact .cons (le_refl inner.extent) (Scopes.Grow.refl outer)

end Bounds

/-! ### Scopes that cover what is drawn inside

The scopes are gone through from the inside outwards, and `seen` joins the extents that have been
passed. When the innermost one is closed, the next one takes its extent in, and nothing needs to
have been seen before. -/

/-- What is drawn since a scope was opened lies in its extent together with those further inside,
which `seen` holds. Each scope goes with the events before it. -/
inductive Scopes.Cover (since : List Event → List (Box ExactEdge)) :
    Box ExactEdge → List ExactScope → List (List Event) → Prop
  | nil (seen : Box ExactEdge) : Cover since seen [] []
  | cons {seen : Box ExactEdge} {scope : ExactScope} {scopes : List ExactScope}
      {before : List Event} {stack : List (List Event)} :
      (∀ box ∈ since before, box ≤ seen ⊔ scope.extent) →
      Cover since (seen ⊔ scope.extent) scopes stack →
      Cover since seen (scope :: scopes) (before :: stack)

namespace Scopes.Cover

variable {since later : List Event → List (Box ExactEdge)} {seen : Box ExactEdge}
  {scopes grown : List ExactScope} {stack : List (List Event)}

/-- Scopes that grow cover the same, and what lies further inside of all of them. -/
theorem mono (hcover : Cover since seen scopes stack) {wider : Box ExactEdge}
    (hseen : seen ≤ wider)
    (hgrown : Scopes.Grow scopes grown)
    (hlater : ∀ before, ∀ box ∈ later before, box ∈ since before ∨ box ≤ wider) :
    Cover later wider grown stack := by
  induction hcover generalizing grown wider with
  | nil =>
      cases hgrown
      exact .nil wider
  | cons hfirst _ ih =>
      obtain ⟨next, rest, hle, hrest, rfl⟩ := List.forall₂_cons_left_iff.mp hgrown
      have hwider := sup_le_sup hseen hle
      refine .cons (fun box hbox => ?_) (ih hwider hrest fun before box hbox => ?_)
      · rcases hlater _ box hbox with hearlier | hinside
        · exact (hfirst box hearlier).trans hwider
        · exact le_sup_of_le_left hinside
      · exact (hlater before box hbox).imp_right le_sup_of_le_left

/-- What the innermost of the scopes takes in is covered from there on. -/
theorem absorb (hcover : Cover since seen scopes stack)
    (hgrown : Scopes.Grow scopes grown)
    {added : Box ExactEdge}
    (hinner : ∀ first ∈ grown.head?, seen ≤ first.extent ∧ added ≤ first.extent)
    (hlater : ∀ before, ∀ box ∈ later before, box ∈ since before ∨ box = added) :
    Cover later ⊥ grown stack := by
  cases hcover with
  | nil =>
      cases hgrown
      exact .nil ⊥
  | @cons _ scope _ _ _ hfirst hcover =>
      obtain ⟨next, rest, hle, hrest, rfl⟩ := List.forall₂_cons_left_iff.mp hgrown
      obtain ⟨hseen, hadded⟩ := hinner next rfl
      have hwider : seen ⊔ scope.extent ≤ ⊥ ⊔ next.extent := le_sup_of_le_right (sup_le hseen hle)
      refine .cons (fun box hbox => ?_) (hcover.mono hwider hrest fun before box hbox => ?_)
      · rcases hlater _ box hbox with hearlier | rfl
        · exact (hfirst box hearlier).trans hwider
        · exact le_sup_of_le_right hadded
      · refine (hlater before box hbox).imp_right ?_
        rintro rfl
        exact le_sup_of_le_right hadded

theorem close {bounds rest : ExactBounds} {closed : ExactScope}
    (hcover : Cover since ⊥ bounds.scopes stack) (hmargin : 0 ≤ bounds.margin)
    (hclose : bounds.closeScope? = some (closed, rest)) :
    ∃ before outer, stack = before :: outer ∧
      (∀ box ∈ since before, box.expand bounds.margin ≤ closed.extent) ∧
      Cover since ⊥ rest.scopes outer ∧
      ∀ first ∈ rest.scopes.head?, closed.extent ≤ first.extent := by
  obtain ⟨inner, scopes, hscopes, rfl, rfl⟩ := Bounds.closeScope?_eq_some hclose
  rw [hscopes] at hcover
  cases hcover with
  | @cons _ _ _ before outer hfirst hcover =>
      rw [bot_sup_eq] at hfirst hcover
      have hinner := Bounds.le_head_includeInner { bounds with scopes }
        (inner.extent.expand bounds.margin)
      have hseen : ∀ first ∈ ({ bounds with scopes }.includeInner
          (inner.extent.expand bounds.margin)).scopes.head?,
          inner.extent ≤ first.extent ∧ ⊥ ≤ first.extent :=
        fun first hfirst =>
          ⟨(Box.le_expand inner.extent hmargin).trans (hinner first hfirst), bot_le⟩
      exact ⟨before, outer, rfl, fun box hbox => Box.expand_mono (hfirst box hbox) _,
        hcover.absorb (Bounds.includeInner_grow { bounds with scopes } _) hseen
          fun _ _ hbox => .inl hbox, hinner⟩

end Scopes.Cover

theorem mem_drop_append {β : Type} {items added : List β} {count : ℕ} {item : β}
    (hmem : item ∈ (items ++ added).drop count) : item ∈ items.drop count ∨ item ∈ added := by
  rw [List.drop_append, List.mem_append] at hmem
  exact hmem.imp_right List.mem_of_mem_drop

namespace Drawing

variable {drawing later : Drawing ℚ ExactEdge} {pen : Pen ℚ} {actors : List Actor}
  {events before : List Event} {event : Event} {box added : Box ExactEdge}
  {scopes : List ExactScope} {stack : List (List Event)}

/-- The boxes of the messages, the notes and the blocks that are drawn after the events. -/
def since (drawing : Drawing ℚ ExactEdge) (before : List Event) : List (Box ExactEdge) :=
  (drawing.messages.drop (before.countP Event.isMessage)).map PlacedMessage.segment ++
    (drawing.notes.drop (before.countP Event.isNote)).map PlacedNote.box ++
    (drawing.blocks.drop (before.countP Event.isClosing)).map PlacedBlock.bounds

theorem mem_since : box ∈ drawing.since before ↔
    (∃ message ∈ drawing.messages.drop (before.countP Event.isMessage), message.segment = box) ∨
    (∃ note ∈ drawing.notes.drop (before.countP Event.isNote), note.box = box) ∨
    ∃ block ∈ drawing.blocks.drop (before.countP Event.isClosing), block.bounds = box := by
  simp only [since, List.mem_append, List.mem_map, or_assoc]

/-- Nothing else is drawn than before, and what is added. -/
theorem mem_since_append (drawing : Drawing ℚ ExactEdge) {messages : List (PlacedMessage ℚ)}
    {notes : List (PlacedNote ℚ)} {blocks : List (PlacedBlock ℚ ExactEdge)}
    (hmem : box ∈ later.since before) (hmessages : later.messages = drawing.messages ++ messages)
    (hnotes : later.notes = drawing.notes ++ notes)
    (hblocks : later.blocks = drawing.blocks ++ blocks) :
    box ∈ drawing.since before ∨ box ∈ messages.map PlacedMessage.segment ++
      notes.map PlacedNote.box ++ blocks.map PlacedBlock.bounds := by
  rw [mem_since, hmessages, hnotes, hblocks] at hmem
  simp only [mem_since, List.mem_append, List.mem_map]
  rcases hmem with ⟨message, hmem, rfl⟩ | ⟨note, hmem, rfl⟩ | ⟨block, hmem, rfl⟩
  · exact (mem_drop_append hmem).imp (fun hdrawn => .inl ⟨message, hdrawn, rfl⟩)
      fun hadded => .inl (.inl ⟨message, hadded, rfl⟩)
  · exact (mem_drop_append hmem).imp (fun hdrawn => .inr (.inl ⟨note, hdrawn, rfl⟩))
      fun hadded => .inl (.inr ⟨note, hadded, rfl⟩)
  · exact (mem_drop_append hmem).imp (fun hdrawn => .inr (.inr ⟨block, hdrawn, rfl⟩))
      fun hadded => .inr ⟨block, hadded, rfl⟩

/-- After all events nothing is drawn. -/
theorem Shows.since_eq_nil (hshows : drawing.Shows actors events) : drawing.since events = [] := by
  rw [since, ← hshows.length_messages, ← hshows.length_notes, ← hshows.length_blocks,
    List.drop_length, List.drop_length, List.drop_length]
  rfl

/-- The scopes cover what is drawn while they are open. -/
structure Surrounds (events : List Event) (drawing : Drawing ℚ ExactEdge) : Prop where
  cover : Scopes.Cover drawing.since ⊥ drawing.bounds.scopes (blockBrackets.unclosed events)
  proper : ∀ block ∈ drawing.blocks, block.bounds.Proper

theorem Surrounds.startX_le (hsurrounds : drawing.Surrounds events)
    (hmem : box ∈ drawing.since before) : box.startX ≤ box.stopX := by
  rcases mem_since.mp hmem with ⟨message, -, rfl⟩ | ⟨note, -, rfl⟩ | ⟨block, hblock, rfl⟩
  · exact (Box.proper_boxAt ..).startX_le
  · exact (Box.proper_boxAt ..).startX_le
  · exact (hsurrounds.proper block (List.mem_of_mem_drop hblock)).startX_le

theorem Surrounds.add (hsurrounds : drawing.Surrounds events) (hopens : event.isOpening = false)
    (hcloses : event.isClosing = false)
    (hscopes : Scopes.Grow drawing.bounds.scopes later.bounds.scopes)
    (hinner : ∀ first ∈ later.bounds.scopes.head?, added ≤ first.extent)
    (hlater : ∀ before, ∀ box ∈ later.since before, box ∈ drawing.since before ∨ box = added)
    (hblocks : later.blocks = drawing.blocks) : later.Surrounds (events ++ [event]) where
  cover := by
    rw [Brackets.unclosed_plain hopens hcloses]
    exact hsurrounds.cover.absorb hscopes
      (fun first hfirst => ⟨bot_le, hinner first hfirst⟩) hlater
  proper := hblocks ▸ hsurrounds.proper

/-- Nothing of what blocks surround is added. -/
theorem Surrounds.keep (hsurrounds : drawing.Surrounds events) (hopens : event.isOpening = false)
    (hcloses : event.isClosing = false)
    (hscopes : Scopes.Grow drawing.bounds.scopes later.bounds.scopes)
    (hmessages : later.messages = drawing.messages) (hnotes : later.notes = drawing.notes)
    (hblocks : later.blocks = drawing.blocks) : later.Surrounds (events ++ [event]) := by
  refine hsurrounds.add hopens hcloses hscopes (fun _ _ => bot_le) (fun before box hbox => ?_)
    hblocks
  rw [since, hmessages, hnotes, hblocks] at hbox
  exact .inl hbox

theorem Surrounds.drawMessage (hsurrounds : drawing.Surrounds events) (hpen : pen.NonNegative)
    {message : Message} (hdraw : drawing.drawMessage pen message = .ok later) :
    later.Surrounds (events ++ [.message message]) := by
  obtain ⟨bounds, placed, startX, stopX, -, hscopes, hle, rfl⟩ := drawMessage_inserts hpen hdraw
  refine hsurrounds.add rfl rfl (hscopes ▸ bounds.insert_grow _)
    (fun first hfirst => hle.trans (bounds.le_head_insert _ first hfirst)) ?_ rfl
  intro before box hbox
  have hmem := mem_since_append drawing hbox rfl (List.append_nil _).symm (List.append_nil _).symm
  exact hmem.imp_right List.mem_singleton.mp

theorem Surrounds.drawNote (hsurrounds : drawing.Surrounds events) {note : Note}
    (hdraw : drawing.drawNote pen note = .ok later) :
    later.Surrounds (events ++ [.note note]) := by
  obtain ⟨span, height, maxWidth, -, rfl⟩ := drawNote_eq_ok hdraw
  refine hsurrounds.add rfl rfl (Bounds.insert_grow _ _) (Bounds.le_head_insert _ _) ?_ rfl
  intro before box hbox
  have hmem := mem_since_append drawing hbox (List.append_nil _).symm rfl (List.append_nil _).symm
  exact hmem.imp_right List.mem_singleton.mp

theorem Surrounds.endActivation (hsurrounds : drawing.Surrounds events) (name : String) :
    (drawing.endActivation name).Surrounds (events ++ [.activation .stop name]) := by
  unfold Drawing.endActivation
  split
  · exact hsurrounds.keep rfl rfl (.refl _) rfl rfl rfl
  · exact hsurrounds.keep rfl rfl (Bounds.insert_grow _ _) rfl rfl rfl

theorem Surrounds.divideBlock (hsurrounds : drawing.Surrounds events) {kind : SectionKind}
    {label : Option String} (hdraw : drawing.divideBlock pen kind (label.getD "") = .ok later) :
    later.Surrounds (events ++ [.block (.divider kind) label]) := by
  obtain ⟨inner, outer, -, -, rfl⟩ := divideBlock_eq_ok hdraw
  exact hsurrounds.keep rfl rfl
    ((drawing.advance (labelledGap pen.settings)).bounds.addSection_grow) rfl rfl rfl

/-- A scope that is opened has nothing drawn inside. -/
theorem Surrounds.openBlock (hsurrounds : drawing.Surrounds events)
    (hshows : drawing.Shows actors events) (kind : BlockKind) (label : Option String) :
    (drawing.openBlock pen kind (label.getD "")).Surrounds
      (events ++ [.block (.opening kind) label]) where
  cover := by
    rw [Brackets.unclosed_opening rfl]
    refine .cons (fun box hbox => ?_) (hsurrounds.cover.mono bot_le
      (.refl _) fun _ _ hbox => .inl hbox)
    have hnone : drawing.since events = [] := hshows.since_eq_nil
    rw [show (drawing.openBlock pen kind (label.getD "")).since events = [] from hnone] at hbox
    cases hbox
  proper := hsurrounds.proper

theorem proper_blockBox (drawing : Drawing ℚ ExactEdge) (pen : Pen ℚ) {scope : ExactScope}
    (htame : scope.Tame) (hspan : drawing.actorSpan.1 ≤ drawing.actorSpan.2)
    (hmargin : 0 ≤ pen.settings.boxMargin) :
    (drawing.blockBox pen scope.extent).Proper := by
  have hx : drawing.actorSpan.1 - pen.settings.boxMargin ≤
      drawing.actorSpan.2 + pen.settings.boxMargin := by
    linarith
  exact Box.Bounded.proper ⟨place_ne_bot _, htame.bounded.startY, place_ne_top _,
    htame.bounded.stopY⟩ (place_le_place.mpr hx) (htame.startY.trans htame.stopY)

/-- The scopes that are still open when a block is closed take in its box. -/
theorem Surrounds.addBlock (hsurrounds : drawing.Surrounds events)
    (hstack : blockBrackets.unclosed events = before :: stack)
    (hcover : Scopes.Cover drawing.since ⊥ scopes stack) {bounds : ExactBounds}
    (hscopes : Scopes.Grow scopes bounds.scopes) {placed : PlacedBlock ℚ ExactEdge}
    (hinner : ∀ first ∈ bounds.scopes.head?, placed.bounds ≤ first.extent)
    (hplaced : placed.bounds.Proper) (outer : List OpenBlock) (distance : ℚ) (kind : BlockKind)
    (label : Option String) :
    (({ drawing with bounds, openBlocks := outer, blocks := drawing.blocks ++ [placed] } :
      Drawing ℚ ExactEdge).advance distance).Surrounds
        (events ++ [.block (.closing kind) label]) where
  cover := by
    rw [Brackets.unclosed_closing rfl, hstack]
    refine hcover.absorb hscopes (fun first hfirst => ⟨bot_le, hinner first hfirst⟩) ?_
    intro front box hbox
    have hmem := mem_since_append drawing hbox (List.append_nil _).symm (List.append_nil _).symm rfl
    exact hmem.imp_right List.mem_singleton.mp
  proper := List.forall_mem_append.mpr
    ⟨hsurrounds.proper, List.forall_mem_singleton.mpr hplaced⟩

/-- A block that is closed has a box around what is drawn inside. The scopes that are still open
cover that box as well. -/
theorem Surrounds.closeBlock (hsurrounds : drawing.Surrounds events)
    (hdrawing : pen.drawAfter actors events = .ok drawing) (hpen : pen.NonNegative)
    {kind : BlockKind} (label : Option String) (hdraw : drawing.closeBlock pen kind = .ok later) :
    later.Surrounds (events ++ [.block (.closing kind) label]) ∧
      ∃ placed before stack, later.blocks = drawing.blocks ++ [placed] ∧
        blockBrackets.unclosed events = before :: stack ∧
        ∀ box ∈ drawing.since before, box.expand pen.settings.boxMargin ≤ placed.bounds := by
  have hboxMargin : 0 ≤ pen.settings.boxMargin := hpen.settings .boxMargin
  have hsteady := Pen.steady_drawAfter hpen hdrawing
  obtain ⟨block, outer, closed, rest, placed, bounds, -, -, hclose, hbounds, rfl⟩ :=
    closeBlock_eq_ok hdraw
  have htame := hsteady.tame_closed hpen hclose
  obtain ⟨before, stack, hstack, hinside, hcover, hinner⟩ :=
    hsurrounds.cover.close (hsteady.margin_nonneg hpen) hclose
  rw [hsteady.margin] at hinside
  rcases hbounds with ⟨hdrawn, rfl, rfl⟩ | ⟨hblank, rfl, rfl⟩
  · have hblock :=
      htame.bounded.proper (not_lt.mp (of_decide_eq_false hdrawn)) (htame.startY.trans htame.stopY)
    exact ⟨hsurrounds.addBlock hstack hcover (.refl _) hinner hblock outer _ kind label, _, before,
      stack, rfl, hstack, hinside⟩
  · -- Whatever is drawn has an extent from left to right.
    have hnone : ∀ box ∈ drawing.since before, False := fun box hbox =>
      have hle := (Box.le_expand box hboxMargin).trans (hinside box hbox)
      absurd (of_decide_eq_true hblank)
        (not_lt.mpr ((hle.1.trans (hsurrounds.startX_le hbox)).trans hle.2.2.1))
    have hspan := actorSpan_le (hpen.settings .width) (hpen.settings .actorMargin)
      (Pen.actors_drawAfter hdrawing)
    have hblock := proper_blockBox drawing pen htame hspan hboxMargin
    have hcorners := Box.corners_eq_self hblock.startX_le hblock.startY_le
    exact ⟨hsurrounds.addBlock hstack hcover (rest.insert_grow _)
      (fun first hfirst => hcorners.ge.trans (rest.le_head_insert _ first hfirst)) hblock outer _
      kind label, _, before, stack, rfl, hstack, fun box hbox => (hnone box hbox).elim⟩

theorem Surrounds.draw (hsurrounds : drawing.Surrounds events)
    (hdrawing : pen.drawAfter actors events = .ok drawing) (hpen : pen.NonNegative)
    (hdraw : drawing.draw pen event = .ok later) : later.Surrounds (events ++ [event]) := by
  cases event with
  | message message => exact hsurrounds.drawMessage hpen hdraw
  | note note => exact hsurrounds.drawNote hdraw
  | activation edge name =>
      cases edge with
      | start =>
          obtain ⟨actor, activation, -, -, -, rfl⟩ := startActivation_eq_ok hdraw
          exact hsurrounds.keep rfl rfl (.refl _) rfl rfl rfl
      | stop =>
          rw [← Except.ok.inj hdraw]
          exact hsurrounds.endActivation name
  | block marker label =>
      cases marker with
      | opening kind =>
          rw [← Except.ok.inj hdraw]
          exact hsurrounds.openBlock (Pen.shows_drawAfter hdrawing) kind label
      | divider kind => exact hsurrounds.divideBlock hdraw
      | closing kind => exact (hsurrounds.closeBlock hdrawing hpen label hdraw).1

theorem surrounds_drawAfter (hpen : pen.NonNegative)
    (hdrawing : pen.drawAfter actors events = .ok drawing) : drawing.Surrounds events := by
  refine Pen.drawAfter_induction (motive := fun events drawing => drawing.Surrounds events) ?_
    (fun _ hdrawing hsurrounds hdraw => hsurrounds.draw hdrawing hpen hdraw) hdrawing
  obtain ⟨bounds, -, -, hscopes, hdrawn⟩ := drawActors_eq (ε := ExactEdge) pen actors
  rw [hdrawn]
  refine ⟨?_, List.forall_mem_nil _⟩
  change Scopes.Cover _ ⊥ bounds.scopes []
  rw [hscopes]
  exact .nil ⊥

end Drawing

variable {diagram : Diagram} {settings : Settings ℚ} {measurer : Measurer ℚ}
  {layout : Layout ℚ ExactEdge}

/-- Each block comes from the markers that belong together. -/
theorem Diagram.exists_blockPair (hsettings : settings.sequence.NonNegative)
    (hmeasurer : measurer.NonNegative)
    (hlayout : diagram.layout settings measurer = .ok layout) {index : ℕ}
    (hindex : index < layout.blocks.length) :
    ∃ pair : blockBrackets.Pair diagram.events, pair.filled.countP Event.isClosing = index := by
  have hpen : (Pen.ofSettings settings measurer).NonNegative := ⟨hsettings, hmeasurer⟩
  obtain ⟨last, hlast, hfinish⟩ := Diagram.exists_drawing hlayout
  obtain ⟨-, -, -, hblocks, -⟩ := Drawing.finish_keeps hfinish
  rw [hblocks, (Pen.shows_drawAfter hlast).length_blocks] at hindex
  obtain ⟨before, closing, after, hevents, hcloses, rfl⟩ := exists_of_lt_countP hindex
  obtain ⟨drawing, later, hdrawing, hdraw, -⟩ := Diagram.exists_draw hlayout hevents
  obtain ⟨kind, label, rfl⟩ := Event.exists_closing hcloses
  obtain ⟨-, placed, start, stack, -, hunclosed, -⟩ :=
    (Drawing.surrounds_drawAfter hpen hdrawing).closeBlock hdrawing hpen label hdraw
  obtain ⟨pair, -, rfl⟩ := Brackets.exists_pair hevents hcloses hunclosed
  exact ⟨pair, rfl⟩

/-- **What blocks surround.** Every block of a layout has a finite box with its edges the right way
round. All messages, notes and blocks between its markers lie inside of the box, and are the margin
away from its edges. -/
theorem Diagram.blocks_surround (hsettings : settings.sequence.NonNegative)
    (hmeasurer : measurer.NonNegative)
    (hlayout : diagram.layout settings measurer = .ok layout) :
    (∀ block ∈ layout.blocks, block.bounds.Proper) ∧
      (∀ index < layout.blocks.length, ∃ pair : blockBrackets.Pair diagram.events,
        pair.filled.countP Event.isClosing = index) ∧
      ∀ pair : blockBrackets.Pair diagram.events, ∃ block,
        layout.blocks[pair.filled.countP Event.isClosing]? = some block ∧
        (∀ message ∈ pair.slice Event.isMessage layout.messages,
          message.segment.expand settings.sequence.boxMargin ≤ block.bounds) ∧
        (∀ note ∈ pair.slice Event.isNote layout.notes,
          note.box.expand settings.sequence.boxMargin ≤ block.bounds) ∧
        ∀ inner ∈ pair.slice Event.isClosing layout.blocks,
          inner.bounds.expand settings.sequence.boxMargin ≤ block.bounds := by
  have hpen : (Pen.ofSettings settings measurer).NonNegative := ⟨hsettings, hmeasurer⟩
  obtain ⟨last, hlast, hfinish⟩ := Diagram.exists_drawing hlayout
  obtain ⟨-, -, -, hblocks, -⟩ := Drawing.finish_keeps hfinish
  refine ⟨?_, fun index => Diagram.exists_blockPair hsettings hmeasurer hlayout, fun pair => ?_⟩
  · rw [hblocks]
    exact (Drawing.surrounds_drawAfter hpen hlast).proper
  · obtain ⟨drawing, closed, kind, hdrawing, hdraw, -, hearlier, hshown⟩ :=
      Diagram.exists_closeBlock hlayout pair
    have hshows := Pen.shows_drawAfter hdrawing
    obtain ⟨-, placed, before, stack, hplaced, hunclosed, hinside⟩ :=
      (Drawing.surrounds_drawAfter hpen hdrawing).closeBlock hdrawing hpen none hdraw
    rw [pair.unclosed_filled] at hunclosed
    obtain ⟨rfl, -⟩ := List.cons.inj hunclosed
    obtain ⟨openingKind, label, hopening⟩ := Event.exists_opening pair.opens
    rw [pair.slice_eq (hopening ▸ rfl) hshows.length_messages hearlier.messages,
      pair.slice_eq (hopening ▸ rfl) hshows.length_notes hearlier.notes,
      pair.slice_eq (hopening ▸ rfl) hshows.length_blocks hearlier.blocks, ← hshows.length_blocks]
    refine ⟨placed, getElem?_of_append_isPrefix (hplaced ▸ hshown.blocks), ?_, ?_, ?_⟩
    · exact fun message hmem => hinside _ (Drawing.mem_since.mpr (.inl ⟨message, hmem, rfl⟩))
    · exact fun note hmem => hinside _ (Drawing.mem_since.mpr (.inr (.inl ⟨note, hmem, rfl⟩)))
    · exact fun inner hmem => hinside _ (Drawing.mem_since.mpr (.inr (.inr ⟨inner, hmem, rfl⟩)))

/-- An alternative around an empty loop, a message and a note. -/
def framed : Chart :=
  Chart.empty.operateAll
    [.edit (.addBlockMarker (.opening .alt) (some "one")),
      .edit (.addBlockMarker (.opening .loop) none), .edit (.addBlockMarker (.closing .loop) none),
      .edit (.addMessage "A" "B" .solid "go"), .edit (.addNote .rightOf "B" none "wait"),
      .edit (.addBlockMarker (.closing .alt) none)]

theorem framed_surround : ∃ layout : Layout ℚ ExactEdge,
    framed.diagram.layout .exact Grid.standard.measurer = .ok layout ∧
      (∀ block ∈ layout.blocks, block.bounds.Proper) ∧
      ∃ inner block, layout.blocks[0]? = some inner ∧ layout.blocks[1]? = some block ∧
        inner.bounds.expand (10 : ℚ) ≤ block.bounds := by
  have hbuilt : framed.Built := Chart.Built.operateAll (.new .standard) _
  obtain ⟨layout, hlayout⟩ : ∃ layout : Layout ℚ ExactEdge,
      framed.diagram.layout .exact Grid.standard.measurer = .ok layout :=
    Diagram.layout_eq_ok hbuilt.balanced.registered rfl .exact Grid.standard.measurer
  obtain ⟨hproper, -, hsurround⟩ :=
    Diagram.blocks_surround Settings.nonNegative_exact Grid.nonNegative_standard hlayout
  have hevents : framed.diagram.events = framed.diagram.events.take 5 ++
      .block (.closing .alt) none :: [] := by decide +kernel
  have hunclosed : blockBrackets.unclosed (framed.diagram.events.take 5) = [[]] := by
    decide +kernel
  obtain ⟨pair, hbefore, hfilled⟩ := Brackets.exists_pair hevents rfl hunclosed
  have hcount : pair.filled.countP Event.isClosing = 1 := by
    rw [hfilled]
    decide +kernel
  have hinside : pair.inside.countP Event.isClosing = 1 := by
    obtain ⟨kind, label, hopening⟩ := Event.exists_opening pair.opens
    rw [Brackets.Pair.filled, hbefore, hopening] at hcount
    exact hcount
  obtain ⟨block, hblock, -, -, hinner⟩ := hsurround pair
  rw [hcount] at hblock
  rw [Brackets.Pair.slice, hbefore, hinside] at hinner
  obtain ⟨first, rest, hblocks⟩ : ∃ first rest, layout.blocks = first :: rest :=
    List.exists_cons_of_ne_nil fun hnone => by
      rw [hnone] at hblock
      cases hblock
  rw [hblocks] at hinner
  refine ⟨layout, hlayout, hproper, first, block, by rw [hblocks]; rfl, hblock, ?_⟩
  exact hinner first List.mem_cons_self

end SequenceChart
