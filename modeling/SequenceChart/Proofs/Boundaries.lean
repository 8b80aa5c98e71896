import SequenceChart.Diagram.MarkedText
import SequenceChart.Proofs.Placement
import SequenceChart.Proofs.ScannedCode
import SequenceChart.Proofs.Switches
import SequenceChart.Proofs.Tags

/-!
# Boundaries

No slice begins or ends inside a character, whatever the texts are. Directives, break tags and
markers are found in the octets of a text, and what is cut out there is what the characters give.
The switches of a source stand at boundaries of its code.
-/

namespace SequenceChart

/-- From a boundary the scan goes on to a boundary, and no slice is torn on the way. -/
def Scan.KeepsBoundaries {α : Type} (code : List Char) (scan : Scan α) : Prop :=
  ∀ place, IsBoundary code place → scan place ≠ .error .torn ∧
    ∀ value later, scan place = .ok (value, later) → IsBoundary code later

theorem Scan.Mirrors.keepsBoundaries {α : Type} {code : List Char} {scan : Scan α}
    {reading : Reading α} (hmirrors : Mirrors code scan reading) : KeepsBoundaries code scan := by
  intro place hplace
  obtain ⟨cursor, hleads, rfl⟩ := exists_cursor hplace
  rw [hmirrors.agrees cursor hleads]
  cases hread : reading cursor with
  | error complaint => exact ⟨nofun, nofun⟩
  | ok found =>
      obtain ⟨value, later⟩ := found
      refine ⟨nofun, fun other stop hok => ?_⟩
      obtain rfl : later.offset = stop := (Prod.mk.inj (Except.ok.inj hok)).2
      exact isBoundary_offset (hleads.trans (hmirrors.advances _ _ _ hread))

theorem Scan.skipBlank_keepsBoundaries (code : List Char) :
    KeepsBoundaries code (skipBlank code) := by
  intro place hplace
  obtain ⟨cursor, hleads, rfl⟩ := exists_cursor hplace
  rw [skipBlank_offset hleads]
  refine ⟨nofun, fun value stop hok => ?_⟩
  obtain rfl : cursor.skipBlank.offset = stop := (Prod.mk.inj (Except.ok.inj hok)).2
  exact isBoundary_offset (hleads.trans cursor.leads_skipBlank)

theorem directiveStart_ascii : ∀ char ∈ directiveStart, IsAscii char := by
  decide

theorem directiveEnd_ascii : ∀ char ∈ directiveEnd, IsAscii char := by
  decide

/-- The segments of a text from a place on, with all that is in them cut out as slices. -/
def cutSegments (text : List Char) (place : Nat) : Option (List Segment) :=
  match _hstart : cutAt? directiveStart ((octets text).drop place) with
  | none => do
      let last ← slice? text place (octets text).length
      return [.plain last]
  | some (before, inside) => do
      let start := place + before.length
      let inner := start + directiveStart.length
      let plain ← slice? text place start
      match _hend : cutAt? directiveEnd inside with
      | none =>
          let content ← slice? text inner (octets text).length
          return [.plain plain, .unclosed content]
      | some (content, _) =>
          let stop := inner + content.length
          let content ← slice? text inner stop
          let later ← cutSegments text (stop + directiveEnd.length)
          return .plain plain :: .directive content :: later
termination_by (octets text).length - place
decreasing_by
  have houter := congrArg List.length (eq_of_cutAt?_eq_some _hstart)
  have hinner := congrArg List.length (eq_of_cutAt?_eq_some _hend)
  simp only [List.length_append, List.length_drop, directiveStart, directiveEnd, List.length_cons,
    List.length_nil] at houter hinner ⊢
  omega

/-- What stands before a mark is cut out as a slice, and the text goes on behind the mark. -/
theorem exists_passed_of_cut {mark after first rest : List Char}
    (hmark : ∀ char ∈ mark, IsAscii char) (hcut : cutAt? mark after = some (first, rest))
    (before : List Char) :
    ∃ passed, before ++ after = passed ++ rest ∧
      byteLength before + (octets first).length + mark.length = byteLength passed ∧
      slice? (before ++ after) (byteLength before) (byteLength before + (octets first).length) =
        some first := by
  obtain rfl := eq_of_cutAt?_eq_some hcut
  refine ⟨before ++ first ++ mark, ?_, ?_, ?_⟩
  · rw [List.append_assoc before, List.append_assoc before]
  · rw [byteLength_append, byteLength_append, length_octets, byteLength_ascii hmark]
  · rw [List.append_assoc first, length_octets, slice?_append]

theorem cutSegments_append (before after : List Char) :
    cutSegments (before ++ after) (byteLength before) = some (Segment.split after) := by
  induction hlength : after.length using Nat.strong_induction_on generalizing before after with
  | _ length ih =>
      have hstarts := cutAt?_octets directiveStart_ascii nofun after
      rw [cutSegments]
      split
      · rename_i hnone
        rw [drop_octets, hstarts, Option.map_eq_none_iff] at hnone
        rw [Segment.split_of_none hnone, slice?_end]
        rfl
      rename_i hsome
      rw [drop_octets, hstarts, Option.map_eq_some_iff] at hsome
      obtain ⟨⟨plain, inside⟩, hstart, heq⟩ := hsome
      obtain ⟨rfl, rfl⟩ := Prod.mk.inj heq
      have hends := cutAt?_octets directiveEnd_ascii nofun inside
      obtain ⟨opened, htext, hinner, hplain⟩ :=
        exists_passed_of_cut directiveStart_ascii hstart before
      simp only [hplain, hinner, Option.bind_eq_bind, Option.bind_some]
      split
      · rename_i hnone
        rw [hends, Option.map_eq_none_iff] at hnone
        rw [Segment.split_of_unclosed hstart hnone, htext, slice?_end]
        rfl
      · rename_i hsome
        rw [hends, Option.map_eq_some_iff] at hsome
        obtain ⟨⟨content, rest⟩, hend, heq⟩ := hsome
        obtain ⟨rfl, rfl⟩ := Prod.mk.inj heq
        obtain ⟨closed, hclosed, houter, hcontent⟩ :=
          exists_passed_of_cut directiveEnd_ascii hend opened
        have hshort : rest.length < length := by
          rw [← hlength, eq_of_cutAt?_eq_some hstart, eq_of_cutAt?_eq_some hend]
          simp only [List.length_append, directiveStart, List.length_cons]
          omega
        rw [htext, hcontent, Option.bind_some, houter, hclosed, ih _ hshort closed rest rfl,
          Segment.split_of_closed hstart hend]
        rfl

/-- The lines of a text between its break tags, cut out as slices. The octets are gone over one by
one from a place on; the line that goes on there begins at `start`. -/
def cutBreaks (text : List Char) (start place : Nat) : Option (List (List Char)) :=
  match _hleft : (octets text).drop place with
  | [] => (slice? text start (octets text).length).map fun line => [line]
  | octet :: rest =>
      match _hbreak : afterBreak? (octet :: rest) with
      | some after => do
          let next := (octets text).length - after.length
          let line ← slice? text start place
          (cutBreaks text next next).map (line :: ·)
      | none => cutBreaks text start (place + 1)
termination_by (octets text).length - place
decreasing_by
  · have hlength := congrArg List.length _hleft
    have hlt := length_lt_of_afterBreak? _hbreak
    rw [List.length_drop] at hlength
    omega
  · have hlength := congrArg List.length _hleft
    rw [List.length_drop, List.length_cons] at hlength
    omega

theorem cutBreaks_of_nil {text : List Char} {start place : Nat}
    (hleft : (octets text).drop place = []) :
    cutBreaks text start place =
      (slice? text start (octets text).length).map fun line => [line] := by
  rw [cutBreaks]
  split
  · rfl
  · rename_i hcons
    cases hcons.symm.trans hleft

theorem cutBreaks_of_break {text after : List Char} {start place : Nat}
    (hbreak : afterBreak? ((octets text).drop place) = some after) :
    cutBreaks text start place = (slice? text start place).bind fun line =>
      (cutBreaks text ((octets text).length - after.length)
        ((octets text).length - after.length)).map (line :: ·) := by
  rw [cutBreaks]
  split
  · rename_i hnil
    rw [hnil] at hbreak
    cases hbreak
  · rename_i hcons
    rw [hcons] at hbreak
    split
    · rename_i hsome
      obtain rfl := Option.some.inj (hsome.symm.trans hbreak)
      rfl
    · rename_i hnone
      cases hnone.symm.trans hbreak

theorem cutBreaks_of_none {text : List Char} {start place : Nat} {octet : Char} {rest : List Char}
    (hleft : (octets text).drop place = octet :: rest)
    (hnone : afterBreak? (octet :: rest) = none) :
    cutBreaks text start place = cutBreaks text start (place + 1) := by
  rw [cutBreaks]
  split
  · rename_i hnil
    cases hnil.symm.trans hleft
  · rename_i hcons
    obtain ⟨rfl, rfl⟩ := List.cons.inj (hcons.symm.trans hleft)
    split
    · rename_i hsome
      cases hsome.symm.trans hnone
    · rfl

theorem cutBreaks_passes {text front rest : List Char} {start place : Nat}
    (hleft : (octets text).drop place = front ++ rest) (hfront : ∀ octet ∈ front, ¬IsAscii octet) :
    cutBreaks text start place = cutBreaks text start (place + front.length) := by
  induction front generalizing place with
  | nil => rfl
  | cons octet front ih =>
      rw [List.forall_mem_cons] at hfront
      have hnone : afterBreak? (octet :: (front ++ rest)) = none := by
        rw [Option.eq_none_iff_forall_ne_some]
        intro after hafter
        obtain ⟨tag, htag, htext⟩ := afterBreak?_eq_some_iff.mp hafter
        obtain ⟨inside, rfl, -⟩ := htag.bracketed
        obtain rfl := (List.cons.inj htext).1
        exact hfront.1 (by decide)
      have hnext : (octets text).drop (place + 1) = front ++ rest := by
        rw [← List.drop_drop, hleft]
        rfl
      rw [cutBreaks_of_none hleft hnone, ih hnext hfront.2, List.length_cons, Nat.add_assoc,
        Nat.add_comm 1]

theorem foldr_consLine (text line : List Char) (lines : List (List Char)) :
    text.foldr consLine (line :: lines) = (text ++ line) :: lines := by
  induction text with
  | nil => rfl
  | cons char text ih =>
      rw [List.foldr_cons, ih]
      rfl

theorem cutBreaks_append (before line after : List Char) :
    cutBreaks (before ++ (line ++ after)) (byteLength before)
        (byteLength before + byteLength line) =
      some (line.foldr consLine (splitBreaks after)) := by
  induction hlength : after.length using Nat.strong_induction_on generalizing before line after with
  | _ length ih =>
      have hleft : (octets (before ++ (line ++ after))).drop (byteLength before + byteLength line) =
          octets after := by
        rw [← byteLength_append, ← List.append_assoc, drop_octets]
      cases hbreak : afterBreak? after with
      | some rest =>
          obtain ⟨tag, htag, rfl⟩ := afterBreak?_eq_some_iff.mp hbreak
          have hnext : (octets (before ++ (line ++ (tag ++ rest)))).length - (octets rest).length =
              byteLength (before ++ line ++ tag) := by
            simp only [length_octets, byteLength_append]
            omega
          have hoctets : afterBreak? (octets (tag ++ rest)) = some (octets rest) := by
            rw [afterBreak?_octets, hbreak, Option.map_some]
          have hlater := ih rest.length (hlength ▸ length_lt_of_afterBreak? hbreak)
            (before ++ line ++ tag) [] rest rfl
          rw [List.nil_append, byteLength, Nat.add_zero, List.append_assoc _ tag,
            List.append_assoc before] at hlater
          rw [← hleft] at hoctets
          rw [cutBreaks_of_break hoctets, slice?_append, Option.bind_some, hnext, hlater,
            splitBreaks_tag htag, foldr_consLine, List.append_nil]
          rfl
      | none =>
          cases after with
          | nil =>
              rw [cutBreaks_of_nil hleft, List.append_nil, slice?_end, splitBreaks, foldr_consLine,
                List.append_nil]
              rfl
          | cons char after =>
              have hlater := ih after.length (hlength ▸ Nat.lt_succ_self _) before (line ++ [char])
                after rfl
              rw [List.append_assoc line, byteLength_append, List.foldr_append,
                ← Nat.add_assoc] at hlater
              rw [splitBreaks_cons hbreak]
              refine Eq.trans ?_ hlater
              by_cases hascii : IsAscii char
              · have hnone := afterBreak?_octets (char :: after)
                rw [octets_cons_ascii hascii] at hleft hnone
                rw [hbreak] at hnone
                rw [cutBreaks_of_none hleft hnone, byteLength, utf8Size_ascii hascii]
                rfl
              · rw [octets_cons] at hleft
                rw [cutBreaks_passes hleft
                  (fun _ hmem => not_isAscii_of_mem_charOctets hascii hmem), length_charOctets]
                rfl

/-- What follows a marker at the start of a text. The slice that the marker would fill is taken only
if its end is a boundary; the slice behind it is taken once the marker is found. -/
def cutMarker? (marker text : List Char) : Option (Option (List Char)) :=
  match slice? text 0 (byteLength marker) with
  | none => some none
  | some head =>
      if (octets head).map Char.toLower = (octets marker).map Char.toLower then
        (slice? text (byteLength marker) (octets text).length).map some
      else some none

/-- The first of the markers that the text starts with, and the text after it. -/
def cutMarkers? : List (String × Bool) → List Char → Option (Option (Bool × List Char))
  | [], _ => some none
  | (marker, wrap) :: markers, text => do
      match ← cutMarker? marker.toList text with
      | some rest => return some (wrap, rest)
      | none => cutMarkers? markers text

theorem exists_of_slice?_start {text part : List Char} {stop : Nat}
    (hslice : slice? text 0 stop = some part) :
    ∃ after, text = part ++ after ∧ stop = byteLength part := by
  unfold slice? at hslice
  split at hslice
  · rename_i hbounds
    obtain ⟨before, after, rfl, rfl⟩ := isBoundary_iff.mp hbounds.2.2
    have hstart : textBefore 0 (before ++ after) = [] :=
      textBefore_byteLength_append [] (before ++ after)
    rw [textBefore_byteLength_append, hstart] at hslice
    obtain rfl := Option.some.inj hslice
    exact ⟨after, rfl, rfl⟩
  · cases hslice

/-- The marker is found in the octets where it is in the characters, and no slice is torn. -/
theorem cutMarker?_eq {marker : List Char} (hmarker : ∀ letter ∈ marker, IsAscii letter)
    (text : List Char) : cutMarker? marker text = some (dropWord? marker text) := by
  cases hdrop : dropWord? marker text with
  | some rest =>
      obtain ⟨spelled, rfl, hspelled⟩ := dropWord?_eq_some_iff.mp hdrop
      have hascii := isAscii_of_map_toLower hmarker hspelled
      have hlength : byteLength marker = byteLength spelled := by
        have hlengths := congrArg List.length hspelled
        rw [List.length_map, List.length_map] at hlengths
        rw [byteLength_ascii hmarker, byteLength_ascii hascii, hlengths]
      rw [cutMarker?, hlength, slice?_start, slice?_end]
      refine if_pos ?_
      rw [octets_ascii hascii, octets_ascii hmarker, hspelled]
  | none =>
      unfold cutMarker?
      split
      · rfl
      · rename_i head hslice
        obtain ⟨after, rfl, -⟩ := exists_of_slice?_start hslice
        refine if_neg fun hlower => ?_
        rw [octets_ascii hmarker] at hlower
        have hascii := isAscii_of_octets (isAscii_of_map_toLower hmarker hlower)
        rw [octets_ascii hascii] at hlower
        cases hdrop.symm.trans (dropWord?_eq_some_iff.mpr ⟨head, rfl, hlower⟩)

theorem cutMarkers?_eq {markers : List (String × Bool)}
    (hmarkers : ∀ marker ∈ markers, ∀ letter ∈ marker.1.toList, IsAscii letter)
    (text : List Char) : cutMarkers? markers text = some (markers.findSome? fun (marker, wrap) =>
      (dropWord? marker.toList text).map fun rest => (wrap, rest)) := by
  induction markers with
  | nil => rfl
  | cons marker markers ih =>
      obtain ⟨marker, wrap⟩ := marker
      rw [List.forall_mem_cons] at hmarkers
      rw [cutMarkers?, cutMarker?_eq hmarkers.1, List.findSome?_cons]
      cases hdrop : dropWord? marker.toList text with
      | none =>
          simp only [hdrop, Option.map_none]
          exact ih hmarkers.2
      | some rest =>
          simp only [hdrop, Option.map_some]
          rfl

theorem cutMarkers?_markers (text : List Char) :
    cutMarkers? MarkedText.markers text = some (MarkedText.dropMarker? text) :=
  cutMarkers?_eq (by decide) text

theorem SwitchesAt.isBoundary {offset : Nat} {pieces : List Piece} {switches : List WrapSwitch}
    (hswitches : SwitchesAt offset pieces switches) (before : List Char)
    (hoffset : offset = byteLength before) :
    ∀ switch ∈ switches, IsBoundary (before ++ residueOf pieces) switch.offset := by
  induction hswitches generalizing before with
  | nil => exact nofun
  | @switch offset piece pieces switches enabled _ _ ih =>
      have hlater := ih (before ++ piece.residue) (by rw [hoffset, byteLength_append])
      rw [residueOf_cons, ← List.append_assoc]
      refine List.forall_mem_cons.mpr ⟨?_, hlater⟩
      rw [hoffset, List.append_assoc]
      exact isBoundary_append before _
  | @other offset piece pieces switches _ _ ih =>
      rw [residueOf_cons, ← List.append_assoc]
      exact ih (before ++ piece.residue) (by rw [hoffset, byteLength_append])

theorem SwitchesAt.inOrder {offset : Nat} {pieces : List Piece} {switches : List WrapSwitch}
    (hswitches : SwitchesAt offset pieces switches) :
    switches.Pairwise fun first second => first.offset ≤ second.offset := by
  induction hswitches with
  | nil => exact .nil
  | switch _ hlater ih =>
      refine .cons (fun switch hmem => ?_) ih
      exact Nat.le_trans (Nat.le_add_right _ _) (hlater.offset_bounds switch hmem).1
  | other _ _ ih => exact ih

theorem Source.switches_at_boundaries {text : String} {source : Source}
    (hread : Source.read text = .ok source) :
    (∀ switch ∈ source.switches, IsBoundary source.code.toList switch.offset) ∧
      source.switches.Pairwise fun first second => first.offset ≤ second.offset := by
  have hswitches := switchesAt_of_source hread
  refine ⟨?_, hswitches.inOrder⟩
  rw [(code_eq_residueOf hread).2]
  exact hswitches.isBoundary [] rfl

/-- At every place that a fault may be told with, there are a line, a column and an excerpt. -/
theorem Script.told_at_places {code : List Char} {place : Nat}
    (hplace : place ∈ (Script.read code).places) :
    IsBoundary code place ∧ place ≤ byteLength code ∧
      lineColumn? code place = some (.ofOffset code place) ∧
      ∃ shown, Scan.excerpt code place place = .ok (shown, place) := by
  obtain ⟨cursor, hleads, rfl⟩ := exists_cursor_of_mem hplace
  have hboundary := Scan.isBoundary_offset hleads
  exact ⟨hboundary, hboundary.le, Cursor.lineColumn?_offset hleads, cursor.excerpt,
    Scan.excerpt_offset hleads _⟩

/-- **No slice is torn.** Scans go from boundary to boundary; scripts, faults, segments, lines and
markers are cut out of octets as they are of characters; switches stand in order at boundaries. -/
theorem slices_keep_characters_whole :
    (∀ code : List Char,
      Scan.KeepsBoundaries code (Scan.skipBlank code) ∧
        Scan.KeepsBoundaries code (Scan.skipIndent code) ∧
        Scan.KeepsBoundaries code (Scan.eatHeader code) ∧
        Scan.KeepsBoundaries code (Scan.statement code)) ∧
      (∀ (chart : Chart) (code : String) (switches : List WrapSwitch),
        chart.readOctets code switches = some (chart.readCode code switches)) ∧
      (∀ code : List Char, ∀ place ∈ (Script.read code).places,
        IsBoundary code place ∧ place ≤ byteLength code ∧
          lineColumn? code place = some (.ofOffset code place) ∧
          ∃ shown, Scan.excerpt code place place = .ok (shown, place)) ∧
      (∀ text : List Char, cutSegments text 0 = some (Segment.split text)) ∧
      (∀ text : List Char, cutBreaks text 0 0 = some (splitBreaks text)) ∧
      (∀ text : List Char,
        cutMarkers? MarkedText.markers text = some (MarkedText.dropMarker? text)) ∧
      ∀ (text : String) (source : Source), Source.read text = .ok source →
        (∀ switch ∈ source.switches, IsBoundary source.code.toList switch.offset) ∧
          source.switches.Pairwise fun first second => first.offset ≤ second.offset := by
  refine ⟨fun code => ⟨?_, ?_, ?_, ?_⟩, Chart.readOctets_eq, ?_, ?_, ?_, cutMarkers?_markers, ?_⟩
  · exact Scan.skipBlank_keepsBoundaries code
  · exact Scan.skipIndent_mirrors.keepsBoundaries
  · exact Scan.eatHeader_mirrors.keepsBoundaries
  · exact Scan.statement_mirrors.keepsBoundaries
  · exact fun code place hplace => Script.told_at_places hplace
  · exact cutSegments_append []
  · exact cutBreaks_append [] []
  · exact fun text source hread => Source.switches_at_boundaries hread

/-- A text with characters of several octets before its switches. -/
def switchedText : String :=
  "sequenceDiagram\nA->>B: é\n%%\x7bwrap\x7d%%\nB->>A: 日本\n%%\x7bnowrap\x7d%%"

def switchedSource : Source where
  code := "sequenceDiagram\nA->>B: é\n\nB->>A: 日本\n"
  title := none
  fragments := []
  switches := [⟨26, true⟩, ⟨41, false⟩]

theorem Source.read_switched : Source.read switchedText = .ok switchedSource := by
  have hcut : FrontMatter.cut? (unifyLineBreaks switchedText.toList) = none := by decide +kernel
  have hsplit : Segment.split (unifyLineBreaks switchedText.toList) =
      [.plain "sequenceDiagram\nA->>B: é\n".toList, .directive "wrap".toList,
        .plain "\nB->>A: 日本\n".toList, .directive "nowrap".toList, .plain []] := by
    decide +kernel
  simp only [Source.read, FrontMatter.split, hcut]
  change (readDirectives 0 (Segment.split _) >>= _) = _
  rw [hsplit]
  rfl

theorem switched_slices_whole :
    Source.read switchedText = .ok switchedSource ∧
      IsBoundary switchedSource.code.toList 26 ∧ IsBoundary switchedSource.code.toList 41 ∧
      switchedSource.switches.Pairwise fun first second => first.offset ≤ second.offset := by
  obtain ⟨-, -, -, -, -, -, hswitches⟩ := slices_keep_characters_whole
  obtain ⟨hboundaries, horder⟩ := hswitches _ _ Source.read_switched
  exact ⟨Source.read_switched, hboundaries ⟨26, true⟩ (by decide),
    hboundaries ⟨41, false⟩ (by decide), horder⟩

end SequenceChart
