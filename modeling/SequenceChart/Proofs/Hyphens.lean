import SequenceChart.Proofs.Registry
import SequenceChart.Proofs.Switches
import SequenceChart.Proofs.Yields

/-!
# Hyphens in names

The name of an actor may hold hyphens. It ends where an arrow is recognized, and never runs past
such a place. Besides arrows, a pair of hyphens ends a name: names are scanned with two characters
in sight, while an arrow that begins with two hyphens is told by its third. A source without such a
pair is read whole, up to the first arrow.
-/

namespace SequenceChart

namespace Reading

/-- The reading of an arrow finds one. -/
def FindsArrow (cursor : Cursor) : Prop :=
  ∃ kind later, arrow? cursor = .ok (some kind, later)

/-- An arrow stands at the start of the text. -/
def showsArrow (text : List Char) : Bool :=
  MessageKind.all.any fun kind => kind.arrow.toList.isPrefixOf text

/-- Two hyphens stand at the start of the text, and no arrow begins with them. -/
def strayPair (text : List Char) : Bool :=
  ['-', '-'].isPrefixOf text && !showsArrow text

/-- What ends a name besides hyphens. -/
def endsPlain (text : List Char) : Bool :=
  match text with
  | ',' :: _ | ':' :: _ | '+' :: _ | '>' :: _ => true
  | _ => endsStatement text

/-- The text that a sign is left out of. -/
def afterSign (text : List Char) : List Char :=
  match text with
  | '+' :: rest | '-' :: rest => rest
  | _ => text

/-- The name that is looked for behind an arrow, where a sign may stand before it. -/
def targetText (text : List Char) : List Char :=
  takeUntil endsActor ((afterSign (text.dropWhile isIndent)).dropWhile isIndent)

/-- The text from a source up to the first arrow, before which no other mark ends a name. -/
structure SourceBefore (source behind : List Char) : Prop where
  named : trim source ≠ []
  unmarked : Clear endsPlain source behind
  first : Clear showsArrow source behind
  arrow : showsArrow behind = true

theorem showsArrow_iff {text : List Char} :
    showsArrow text = true ↔ ∃ kind : MessageKind, kind.arrow.toList <+: text := by
  simp only [showsArrow, List.any_eq_true, List.isPrefixOf_iff_prefix]
  constructor
  · rintro ⟨kind, -, hprefix⟩
    exact ⟨kind, hprefix⟩
  · rintro ⟨kind, hprefix⟩
    exact ⟨kind, by cases kind <;> decide, hprefix⟩

theorem startsArrow_of_showsArrow {text : List Char} (hshows : showsArrow text = true) :
    startsArrow text = true := by
  obtain ⟨kind, rest, rfl⟩ := showsArrow_iff.mp hshows
  cases kind <;> rfl

/-- Where the scanner of names stops at a hyphen, an arrow stands or a pair of hyphens. -/
theorem showsArrow_or_pair {text : List Char} (hstarts : startsArrow text = true) :
    showsArrow text = true ∨ ['-', '-'] <+: text := by
  unfold startsArrow at hstarts
  split at hstarts
  · exact .inr ⟨_, rfl⟩
  · rename_i rest
    exact .inl (showsArrow_iff.mpr ⟨.solid, rest, rfl⟩)
  · rename_i rest
    exact .inl (showsArrow_iff.mpr ⟨.solidCross, rest, rfl⟩)
  · cases hstarts

theorem startsArrow_eq (text : List Char) :
    startsArrow text = (showsArrow text || strayPair text) := by
  rw [Bool.eq_iff_iff, Bool.or_eq_true, strayPair, Bool.and_eq_true, List.isPrefixOf_iff_prefix,
    Bool.not_eq_true']
  constructor
  · intro hstarts
    cases hshows : showsArrow text with
    | true => exact .inl rfl
    | false => exact .inr ⟨(showsArrow_or_pair hstarts).resolve_left (by simp [hshows]), rfl⟩
  · rintro (hshows | ⟨⟨rest, rfl⟩, -⟩)
    · exact startsArrow_of_showsArrow hshows
    · rfl

theorem endsActor_eq (text : List Char) :
    endsActor text = (endsPlain text || (showsArrow text || strayPair text)) := by
  rw [← startsArrow_eq]
  cases text with
  | nil => rfl
  | cons char rest =>
      by_cases hmark : char = ',' ∨ char = ':' ∨ char = '+' ∨ char = '>'
      · rcases hmark with rfl | rfl | rfl | rfl <;> rfl
      · simp only [not_or] at hmark
        simp [endsActor, endsPlain, hmark]

theorem endsPlain_hyphen (rest : List Char) : endsPlain ('-' :: rest) = false := by
  simp [endsPlain, endsStatement_cons]

theorem clear_endsActor {source behind : List Char} (hunmarked : Clear endsPlain source behind)
    (hfirst : Clear showsArrow source behind) (hpairs : Clear strayPair source behind) :
    Clear endsActor source behind := by
  intro before char after hsource
  rw [endsActor_eq, hunmarked before char after hsource, hfirst before char after hsource,
    hpairs before char after hsource]
  rfl

theorem clear_nil (stops : List Char → Bool) (rest : List Char) : Clear stops [] rest := by
  intro before char after hcut
  exact absurd hcut.symm (List.append_ne_nil_of_right_ne_nil _ (List.cons_ne_nil _ _))

theorem exists_rest_takeUntil (stops : List Char → Bool) (text : List Char) :
    ∃ rest, text = takeUntil stops text ++ rest ∧ Clear stops (takeUntil stops text) rest ∧
      (rest = [] ∨ stops rest = true) := by
  induction text with
  | nil => exact ⟨[], rfl, clear_nil _ _, .inl rfl⟩
  | cons char text ih =>
      by_cases hstops : stops (char :: text) = true
      · rw [takeUntil, if_pos hstops]
        exact ⟨char :: text, rfl, clear_nil _ _, .inr hstops⟩
      · obtain ⟨rest, htext, hclear, hrest⟩ := ih
        rw [takeUntil, if_neg hstops]
        refine ⟨rest, by rw [List.cons_append, ← htext], ?_, hrest⟩
        intro before other after hcut
        cases before with
        | nil =>
            obtain ⟨rfl, rfl⟩ := List.cons.inj hcut
            rw [List.cons_append, ← htext]
            simpa using hstops
        | cons first before => exact hclear before other after (List.cons.inj hcut).2

theorem clear_of_takeUntil {stops : List Char → Bool} {text rest : List Char}
    (htext : text <+: takeUntil stops (text ++ rest)) : Clear stops text rest := by
  induction text with
  | nil => exact clear_nil stops rest
  | cons first text ih =>
      rw [List.cons_append, takeUntil] at htext
      by_cases hstops : stops (first :: (text ++ rest)) = true
      · rw [if_pos hstops] at htext
        exact absurd (List.prefix_nil.mp htext) (List.cons_ne_nil _ _)
      · rw [if_neg hstops] at htext
        intro before char after hcut
        cases before with
        | nil =>
            obtain ⟨rfl, rfl⟩ := List.cons.inj hcut
            simpa using hstops
        | cons other before =>
            exact ih (List.cons_prefix_cons.mp htext).2 before char after (List.cons.inj hcut).2

theorem actor_eq (missing : Complaint) (cursor : Cursor) :
    actor missing cursor =
      if (trim (takeUntil endsActor cursor.rest)).isEmpty then .error missing
      else .ok (trimmed (takeUntil endsActor cursor.rest),
        cursor.skip (takeUntil endsActor cursor.rest).length) := by
  have htext : textUntil endsActor cursor = .ok (takeUntil endsActor cursor.rest,
      cursor.skip (takeUntil endsActor cursor.rest).length) := rfl
  rw [actor, StateT.bind_of_ok htext]
  split <;> rfl

theorem exists_arrow {cursor : Cursor} (hshows : showsArrow cursor.rest = true) :
    ∃ kind : MessageKind, kind.arrow.toList <+: cursor.rest ∧
      arrow? cursor = .ok (some kind, cursor.skip kind.arrow.length) := by
  obtain ⟨kind, hkind⟩ := Option.isSome_iff_exists.mp
    (List.find?_isSome.mpr (List.any_eq_true.mp hshows))
  have hprefix : kind.arrow.toList.isPrefixOf cursor.rest = true :=
    List.find?_some (p := fun kind : MessageKind => kind.arrow.toList.isPrefixOf cursor.rest) hkind
  refine ⟨kind, List.isPrefixOf_iff_prefix.mp hprefix, ?_⟩
  change Except.ok _ = _
  dsimp only
  rw [hkind]

theorem findsArrow_iff {cursor : Cursor} : FindsArrow cursor ↔ showsArrow cursor.rest = true := by
  constructor
  · rintro ⟨kind, later, harrow⟩
    have hfound := Except.ok.inj harrow
    dsimp only at hfound
    split at hfound
    · rename_i hsome
      exact List.any_eq_true.mpr (List.find?_isSome.mp (Option.isSome_of_eq_some hsome))
    · cases hfound
  · intro hshows
    obtain ⟨kind, -, harrow⟩ := exists_arrow hshows
    exact ⟨kind, _, harrow⟩

/-- At most one sign is taken. -/
theorem exists_edge (cursor : Cursor) :
    ∃ edge later, edge? cursor = .ok (edge, later) ∧ later.rest = afterSign cursor.rest := by
  obtain ⟨rest, offset⟩ := cursor
  unfold afterSign
  split
  · rename_i more hrest
    obtain rfl : rest = '+' :: more := hrest
    exact ⟨some .start, Cursor.skip ⟨'+' :: more, offset⟩ 1, rfl, rfl⟩
  · rename_i more hrest
    obtain rfl : rest = '-' :: more := hrest
    exact ⟨some .stop, Cursor.skip ⟨'-' :: more, offset⟩ 1, rfl, rfl⟩
  · rename_i hplus hminus
    refine ⟨none, _, edge?_yields none ?_ ?_ offset, rfl⟩
    · intro hhead
      obtain ⟨more, hrest⟩ := List.head?_eq_some_iff.mp hhead
      exact hplus more hrest
    · intro hhead
      obtain ⟨more, hrest⟩ := List.head?_eq_some_iff.mp hhead
      exact hminus more hrest

theorem exists_messageText (cursor : Cursor) :
    ∃ text later, messageText cursor = .ok (text, later) := by
  obtain ⟨colon, behind, hcolon⟩ : ∃ colon behind, eat ':' cursor = .ok (colon, behind) :=
    ⟨_, _, rfl⟩
  rw [messageText, StateT.bind_of_ok hcolon]
  cases colon with
  | true => exact ⟨_, _, rfl⟩
  | false => exact ⟨_, _, rfl⟩

theorem rest_skipIndent (cursor : Cursor) :
    cursor.skipIndent.rest = cursor.rest.dropWhile isIndent := by
  have hrest := List.takeWhile_append_dropWhile (p := isIndent) (l := cursor.rest)
  exact (congrArg (List.drop _) hrest.symm).trans List.drop_left

/-- Behind an arrow a message fails only if no target is found. -/
theorem messageFrom_arrow (source : String) (unrecognized : Complaint) (place : Cursor)
    (hshows : showsArrow place.rest = true) :
    ∃ kind : MessageKind, arrow? place = .ok (some kind, place.skip kind.arrow.length) ∧
      if trim (targetText (place.rest.drop kind.arrow.length)) = [] then
        messageFrom source unrecognized place = .error .missingTarget
      else ∃ edge text later, messageFrom source unrecognized place =
        .ok (.message source (trimmed (targetText (place.rest.drop kind.arrow.length))) kind edge
          text, later) := by
  obtain ⟨kind, hprefix, harrow⟩ := exists_arrow hshows
  refine ⟨kind, harrow, ?_⟩
  have hindent (cursor : Cursor) : skipIndent cursor = .ok ((), cursor.skipIndent) := rfl
  have hplace : place.skipIndent = place := by
    obtain ⟨second, more, hspelled, -⟩ := kind.arrow_toList
    obtain ⟨rest, hrest⟩ := hprefix
    have hnone : place.rest.takeWhile isIndent = [] := by
      rw [← hrest, hspelled]
      rfl
    rw [Cursor.skipIndent, hnone]
    simp [Cursor.skip, byteLength]
  rw [messageFrom, StateT.bind_of_ok (hindent place), hplace, StateT.bind_of_ok harrow]
  obtain ⟨edge, later, hedge, hrest⟩ := exists_edge (place.skip kind.arrow.length).skipIndent
  rw [rest_skipIndent] at hrest
  dsimp only
  rw [StateT.bind_of_ok (hindent _), StateT.bind_of_ok hedge, StateT.bind_of_ok (hindent _)]
  have htarget : takeUntil endsActor later.skipIndent.rest =
      targetText (place.rest.drop kind.arrow.length) := by
    rw [rest_skipIndent, hrest]
    rfl
  have hactor := actor_eq .missingTarget later.skipIndent
  rw [htarget] at hactor
  by_cases hempty : trim (targetText (place.rest.drop kind.arrow.length)) = []
  · rw [if_pos hempty]
    rw [if_pos (List.isEmpty_iff.mpr hempty)] at hactor
    exact StateT.bind_of_error hactor
  · rw [if_neg hempty]
    rw [if_neg (by simpa using hempty)] at hactor
    rw [StateT.bind_of_ok hactor, StateT.bind_of_ok (hindent _)]
    obtain ⟨text, last, htext⟩ := exists_messageText (later.skipIndent.skip
      (targetText (place.rest.drop kind.arrow.length)).length).skipIndent
    rw [StateT.bind_of_ok htext]
    exact ⟨edge, text, last, rfl⟩

/-- A source without a stray pair is read whole. -/
theorem statement_of_source {source behind : List Char} {offset : Nat}
    (hsource : SourceBefore source behind) (hpairs : Clear strayPair source behind)
    (hkeyword : keyword? ⟨source ++ behind, offset⟩ = .ok (none, ⟨source ++ behind, offset⟩)) :
    ∃ complaint, statement ⟨source ++ behind, offset⟩ =
      messageFrom (trimmed source) complaint ⟨behind, offset + byteLength source⟩ := by
  have hends : endsActor behind = true := by
    rw [endsActor_eq, hsource.arrow, Bool.true_or, Bool.or_true]
  have hname : takeUntil endsActor (source ++ behind) = source :=
    takeUntil_append (clear_endsActor hsource.unmarked hsource.first hpairs) hends
  have hactor (missing : Complaint) : actor missing ⟨source ++ behind, offset⟩ =
      .ok (trimmed source, ⟨behind, offset + byteLength source⟩) := by
    rw [actor_eq, hname, if_neg (by simpa using hsource.named), Cursor.skip_length]
  have hget : (get : Reading Cursor) ⟨source ++ behind, offset⟩ =
      .ok (⟨source ++ behind, offset⟩, ⟨source ++ behind, offset⟩) := rfl
  refine ⟨.unrecognized (Cursor.mk (source ++ behind) offset).excerpt, ?_⟩
  rw [statement, StateT.bind_of_ok hkeyword]
  dsimp only
  rw [message, StateT.bind_of_ok hget, StateT.bind_of_ok (hactor _)]

end Reading

/-- A message is sent from its source, also if it cannot end an activation of it. -/
theorem Session.exists_sent (session : Session) (offset : Nat) (source target : String)
    (kind : MessageKind) (edge : Option ActivationEdge) (text : String) :
    ∃ sent, .message sent ∈ (session.carryOut offset
        (.message source target kind edge text)).1.chart.diagram.events ∧
      sent.source = source ∧ sent.target = target := by
  have hsent : ∃ sent, Event.message sent ∈
      (session.chart.addMessage source target kind text).diagram.events ∧
        sent.source = source ∧ sent.target = target := by
    have hevents := session.chart.diagram.events_addMessage session.chart.wrapEnabled source target
      kind text
    exact ⟨_, by rw [Chart.addMessage, hevents]; exact List.mem_concat_self, rfl, rfl⟩
  obtain ⟨sent, hmem, hends⟩ := hsent
  refine ⟨sent, ?_, hends⟩
  rcases edge with _ | _ | _
  · exact hmem
  · have hevents := Diagram.events_activate
      (session.chart.addMessage source target kind text).diagram session.chart.wrapEnabled target
    exact hevents ▸ List.mem_append_left _ hmem
  · rw [carryOut, addMessage, deactivate]
    split
    · rename_i chart hdeactivate
      obtain ⟨diagram, hdiagram, rfl⟩ := Option.map_eq_some_iff.mp hdeactivate
      obtain ⟨-, hevents, -⟩ := Diagram.deactivate?_eq_some hdiagram
      exact hevents ▸ List.mem_append_left _ hmem
    · exact hmem

namespace Reading

/-- The name of an actor stops at a hyphen only where an arrow is found or a stray pair of hyphens
stands, and runs past no arrow. A source without a stray pair, however many hyphens it holds, is
read whole, and is the source of the message that is sent. -/
theorem names_reach_arrows (cursor : Cursor) (missing : Complaint) (source behind : List Char)
    (offset : Nat) :
    (let name := takeUntil endsActor cursor.rest
      let stop := cursor.skip name.length
      (actor missing cursor =
          if (trim name).isEmpty then .error missing else .ok (trimmed name, stop)) ∧
        (stop.rest.head? = some '-' → FindsArrow stop ∨ strayPair stop.rest = true) ∧
        ∀ before after, name = before ++ after → after ≠ [] →
          ¬FindsArrow (cursor.skip before.length)) ∧
      (SourceBefore source behind → Clear strayPair source behind →
        keyword? ⟨source ++ behind, offset⟩ = .ok (none, ⟨source ++ behind, offset⟩) →
          let place : Cursor := ⟨behind, offset + byteLength source⟩
          ∃ kind : MessageKind, arrow? place = .ok (some kind, place.skip kind.arrow.length) ∧
            let target := targetText (behind.drop kind.arrow.length)
            if trim target = [] then
              statement ⟨source ++ behind, offset⟩ = .error .missingTarget
            else ∃ edge text later, statement ⟨source ++ behind, offset⟩ =
                .ok (.message (trimmed source) (trimmed target) kind edge text, later) ∧
              ∀ (session : Session) (start : Nat), ∃ sent,
                .message sent ∈ (session.carryOut start (.message (trimmed source) (trimmed target)
                  kind edge text)).1.chart.diagram.events ∧ sent.source = trimmed source) := by
  refine ⟨?_, ?_⟩
  · dsimp only
    obtain ⟨rest, hrest, hclear, hstops⟩ := exists_rest_takeUntil endsActor cursor.rest
    have hdrop (before after : List Char)
        (hname : takeUntil endsActor cursor.rest = before ++ after) :
        (cursor.skip before.length).rest = after ++ rest := by
      rw [Cursor.skip, hrest, hname, List.append_assoc, List.drop_left]
    refine ⟨actor_eq missing cursor, ?_, ?_⟩
    · rw [findsArrow_iff, hdrop _ [] (List.append_nil _).symm, List.nil_append]
      intro hhead
      obtain ⟨more, rfl⟩ := List.head?_eq_some_iff.mp hhead
      have hends := hstops.resolve_left (List.cons_ne_nil _ _)
      rwa [endsActor_eq, endsPlain_hyphen, Bool.false_or, Bool.or_eq_true] at hends
    · intro before after hname hafter
      obtain ⟨char, after, rfl⟩ := List.exists_cons_of_ne_nil hafter
      have hends := hclear before char after hname
      rw [endsActor_eq, Bool.or_eq_false_iff, Bool.or_eq_false_iff] at hends
      rw [findsArrow_iff, hdrop before _ hname, hends.2.1]
      exact Bool.false_ne_true
  · intro hsource hpairs hkeyword
    obtain ⟨complaint, hstatement⟩ := statement_of_source hsource hpairs hkeyword
    obtain ⟨kind, harrow, hread⟩ := messageFrom_arrow (trimmed source) complaint
      ⟨behind, offset + byteLength source⟩ hsource.arrow
    refine ⟨kind, harrow, ?_⟩
    dsimp only at hread ⊢
    rw [hstatement]
    by_cases htarget : trim (targetText (behind.drop kind.arrow.length)) = []
    · rwa [if_pos htarget] at hread ⊢
    · rw [if_neg htarget] at hread ⊢
      obtain ⟨edge, text, later, hread⟩ := hread
      refine ⟨edge, text, later, hread, ?_⟩
      intro session start
      obtain ⟨sent, hsent, hsource, -⟩ :=
        session.exists_sent start (trimmed source) _ kind edge text
      exact ⟨sent, hsent, hsource⟩

theorem hyphenated_sourceBefore :
    SourceBefore "e-mail - gateway ".toList "-->>+B: hi".toList where
  named := by decide +kernel
  unmarked := clear_of_takeUntil (by decide +kernel)
  first := clear_of_takeUntil (by decide +kernel)
  arrow := by decide +kernel

theorem hyphenated_read_whole :
    SourceBefore "e-mail - gateway ".toList "-->>+B: hi".toList ∧
      Clear strayPair "e-mail - gateway ".toList "-->>+B: hi".toList ∧
      ∃ edge text later, statement ⟨"e-mail - gateway -->>+B: hi".toList, 16⟩ =
        .ok (.message "e-mail - gateway" "B" .dottedOpen edge text, later) := by
  have hpairs : Clear strayPair "e-mail - gateway ".toList "-->>+B: hi".toList :=
    clear_of_takeUntil (by decide +kernel)
  have hkeyword : keyword? ⟨"e-mail - gateway -->>+B: hi".toList, 16⟩ =
      .ok (none, ⟨"e-mail - gateway -->>+B: hi".toList, 16⟩) := by rfl
  obtain ⟨kind, harrow, hread⟩ :=
    (names_reach_arrows ⟨"e-mail - gateway -->>+B: hi".toList, 16⟩ .missingActor _ _ 16).2
      hyphenated_sourceBefore hpairs hkeyword
  obtain rfl : kind = .dottedOpen := by
    have hfound : arrow? ⟨"-->>+B: hi".toList, 16 + byteLength "e-mail - gateway ".toList⟩ =
        .ok (some .dottedOpen, ⟨"+B: hi".toList, 37⟩) := by rfl
    rw [hfound] at harrow
    exact (Option.some.inj (Prod.mk.inj (Except.ok.inj harrow)).1).symm
  rw [if_neg (by decide +kernel)] at hread
  obtain ⟨edge, text, later, hread, -⟩ := hread
  exact ⟨hyphenated_sourceBefore, hpairs, edge, text, later, hread⟩

/-- A pair of hyphens ends the name, though the first arrow stands behind it. -/
theorem doubleHyphen_unrecognized :
    SourceBefore "A--B".toList "->C: x".toList ∧
      takeUntil endsActor "A--B->C: x".toList = ['A'] ∧
      ¬FindsArrow ⟨"--B->C: x".toList, 1⟩ ∧
      (Chart.empty.readCode "sequenceDiagram\nA--B->C: x" []).2 =
        some ⟨⟨2, 1⟩, .complaint (.unrecognized "A--B->C: x")⟩ := by
  refine ⟨⟨by decide +kernel, clear_of_takeUntil (by decide +kernel),
    clear_of_takeUntil (by decide +kernel), by decide +kernel⟩, by decide +kernel, ?_,
    by decide +kernel⟩
  rw [findsArrow_iff]
  decide +kernel

end Reading

end SequenceChart
