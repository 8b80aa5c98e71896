import Mathlib.Data.List.TakeWhile
import SequenceChart.Proofs.Failures
import SequenceChart.Proofs.Lines
import SequenceChart.Proofs.Scans

/-!
# Scanned code

The code of a diagram read from octets: its statements with their places, and the lines and columns
that faults are told with. For all charts and switches, what is read is what the characters give,
and no slice is torn on the way.
-/

namespace SequenceChart

/-- The text up to its last line break, that one included. -/
def closedLines (text : List Char) : List Char :=
  (text.reverse.dropWhile (· != '\n')).reverse

/-- The line and the column of a place, told from slices of the text before it. -/
def lineColumn? (text : List Char) (place : Nat) : Option Position := do
  let before ← slice? text 0 (min place (octets text).length)
  let line ← slice? before (byteLength (closedLines before)) (octets before).length
  return { line := before.count '\n' + 1, column := line.length + 1 }

theorem slice?_start (before after : List Char) :
    slice? (before ++ after) 0 (byteLength before) = some before := by
  have hslice := slice?_append [] before after
  rwa [List.nil_append, byteLength, Nat.zero_add] at hslice

theorem slice?_end (before after : List Char) :
    slice? (before ++ after) (byteLength before) (octets (before ++ after)).length =
      some after := by
  have hslice := slice?_append before after []
  rwa [List.append_nil, ← byteLength_append, ← length_octets (before ++ after)] at hslice

theorem exists_lastLine (text : List Char) :
    ∃ line, text = closedLines text ++ line ∧ '\n' ∉ line ∧
      (closedLines text = [] ∨ ∃ earlier, closedLines text = earlier ++ ['\n']) := by
  have hsplit := List.takeWhile_append_dropWhile (p := (· != '\n')) (l := text.reverse)
  refine ⟨(text.reverse.takeWhile (· != '\n')).reverse, ?_, ?_, ?_⟩
  · rw [closedLines, ← List.reverse_append, hsplit, List.reverse_reverse]
  · intro hmem
    have hholds := List.mem_takeWhile_imp (List.mem_reverse.mp hmem)
    exact absurd hholds (by decide)
  · rw [closedLines]
    cases hclosed : text.reverse.dropWhile (· != '\n') with
    | nil => exact .inl rfl
    | cons char rest =>
        have hbreak := List.head_dropWhile_not (· != '\n') (by rw [hclosed]; exact nofun)
        simp only [hclosed, List.head_cons, bne_eq_false_iff_eq] at hbreak
        exact .inr ⟨rest.reverse, by rw [hbreak, List.reverse_cons]⟩

theorem Position.column_after {text : List Char} (hbreak : '\n' ∉ text) :
    (after text).column = text.length + 1 := by
  have hfoldl (position : Position) :
      (text.foldl advance position).column = position.column + text.length := by
    induction text generalizing position with
    | nil => rfl
    | cons char rest ih =>
        rw [List.mem_cons, not_or] at hbreak
        rw [List.foldl_cons, ih hbreak.2, advance, if_neg (Ne.symm hbreak.1), List.length_cons,
          Nat.add_assoc, Nat.add_comm 1]
  rw [after, hfoldl, Nat.add_comm]
  rfl

theorem lineColumn?_append (before after : List Char) :
    lineColumn? (before ++ after) (byteLength before) = some (.after before) := by
  have hle : byteLength before ≤ (octets (before ++ after)).length := by
    rw [length_octets]
    exact (isBoundary_append before after).le
  obtain ⟨line, hbefore, hline, hclosed⟩ := exists_lastLine before
  have hcolumn : (Position.after before).column = line.length + 1 := by
    rw [hbefore]
    rcases hclosed with hnone | ⟨earlier, hearlier⟩
    · rw [hnone, List.nil_append, Position.column_after hline]
    · rw [hearlier, List.append_assoc, List.singleton_append, Position.after_column_of_break,
        Position.column_after hline]
  have hslice : slice? before (byteLength (closedLines before)) (octets before).length =
      some line := by
    have hend := slice?_end (closedLines before) line
    rwa [← hbefore] at hend
  rw [lineColumn?, Nat.min_eq_left hle, slice?_start, Option.bind_eq_bind, Option.bind_some, hslice,
    Option.bind_some, ← hcolumn, Nat.add_comm, ← Position.after_line]
  rfl

/-- Wherever a cursor is in the text, its line and column are told. -/
theorem Cursor.lineColumn?_offset {text : List Char} {cursor : Cursor}
    (hleads : (Cursor.ofText text).Leads cursor) :
    lineColumn? text cursor.offset = some (.ofOffset text cursor.offset) := by
  obtain ⟨before, htext, hoffset⟩ := Scan.exists_before hleads
  rw [htext, hoffset, lineColumn?_append, Position.ofOffset, textBefore_byteLength_append]

namespace Scan

variable {code : List Char}

theorem moveTo_eq_ok {place current later : Nat} {result : Unit}
    (hmove : moveTo code place current = .ok (result, later)) :
    later = place ∧ later ≤ (octets code).length ∧ IsBoundary code later := by
  unfold moveTo at hmove
  split at hmove
  · rename_i hboundary
    obtain rfl : place = later := (Prod.mk.inj (Except.ok.inj hmove)).2
    exact ⟨rfl, length_octets code ▸ hboundary.le, hboundary⟩
  · cases hmove

/-- A statement takes at least one octet. -/
theorem lt_of_statement {start later : Nat} {found : Statement} (hstart : IsBoundary code start)
    (hscan : statement code start = .ok (found, later)) : start < later := by
  obtain ⟨cursor, hleads, rfl⟩ := exists_cursor hstart
  have hagrees := hscan.symm.trans (statement_mirrors.agrees cursor hleads)
  cases hread : Reading.statement cursor with
  | error complaint =>
      rw [hread] at hagrees
      cases hagrees
  | ok result =>
      obtain ⟨other, place⟩ := result
      rw [hread] at hagrees
      obtain rfl : later = place.offset := (Prod.mk.inj (Except.ok.inj hagrees)).2
      have hlt := Reading.length_lt_of_statement hread
      obtain ⟨passed, hrest, hoffset⟩ := Reading.statement_advances _ _ _ hread
      have hpassed : 0 < passed.length := by
        rw [hrest, List.length_append] at hlt
        omega
      have hle := length_le_byteLength passed
      omega

/-- What stands behind a statement, if the statement does not end there. -/
def clutter? (code : List Char) (stop : Nat) : Option Ending :=
  match excerpt code stop stop with
  | .ok (shown, _) => some (.cluttered stop (.unexpected shown))
  | .error _ => none

/-- The statements from a place on with their places, and the way in which they end. There is none
of this if a scan is torn. -/
def readStatements (code : List Char) (place : Nat) :
    Option (List (Nat × Statement) × Ending) :=
  match _hblank : skipBlank code place with
  | .error _ => none
  | .ok (_, start) =>
      if (left code start).isEmpty then some ([], .complete start)
      else
        match _hread : statement code start with
        | .error .torn => none
        | .error (.complaint complaint) => some ([], .unreadable start complaint)
        | .ok (found, later) =>
            match _hindent : skipIndent code later with
            | .error _ => none
            | .ok (_, stop) =>
                if endsStatement (left code stop) then
                  (readStatements code stop).map fun (statements, ending) =>
                    ((start, found) :: statements, ending)
                else (clutter? code stop).map fun ending => ([(start, found)], ending)
termination_by (octets code).length - place
decreasing_by
  have hstart : start = place + blankLength false (left code place) ∧ _ := moveTo_eq_ok _hblank
  have hlt := lt_of_statement hstart.2.2 _hread
  have hstop : stop = later + ((left code later).takeWhile isIndent).length ∧ _ :=
    moveTo_eq_ok _hindent
  omega

section

variable {place start later stop : Nat} {found : Statement} {complaint : Complaint}

theorem readStatements_of_blank (hblank : skipBlank code place = .ok ((), start))
    (hleft : (left code start).isEmpty = true) :
    readStatements code place = some ([], .complete start) := by
  rw [readStatements]
  split
  · rename_i herror
    cases herror.symm.trans hblank
  · rename_i hstart
    obtain ⟨-, rfl⟩ := Prod.mk.inj (Except.ok.inj (hstart.symm.trans hblank))
    rw [if_pos hleft]

theorem readStatements_of_error (hblank : skipBlank code place = .ok ((), start))
    (hleft : (left code start).isEmpty = false)
    (hread : statement code start = .error (.complaint complaint)) :
    readStatements code place = some ([], .unreadable start complaint) := by
  rw [readStatements]
  split
  · rename_i herror
    cases herror.symm.trans hblank
  rename_i hstart
  obtain ⟨-, rfl⟩ := Prod.mk.inj (Except.ok.inj (hstart.symm.trans hblank))
  rw [if_neg (by rw [hleft]; exact Bool.false_ne_true)]
  split
  · rename_i htorn
    cases htorn.symm.trans hread
  · rename_i hother
    rw [Halt.complaint.inj (Except.error.inj (hother.symm.trans hread))]
  · rename_i hok
    cases hok.symm.trans hread

theorem readStatements_of_ok (hblank : skipBlank code place = .ok ((), start))
    (hleft : (left code start).isEmpty = false) (hread : statement code start = .ok (found, later))
    (hindent : skipIndent code later = .ok ((), stop)) :
    readStatements code place =
      if endsStatement (left code stop) then
        (readStatements code stop).map fun (statements, ending) =>
          ((start, found) :: statements, ending)
      else (clutter? code stop).map fun ending => ([(start, found)], ending) := by
  rw [readStatements]
  split
  · rename_i herror
    cases herror.symm.trans hblank
  rename_i hstart
  obtain ⟨-, rfl⟩ := Prod.mk.inj (Except.ok.inj (hstart.symm.trans hblank))
  rw [if_neg (by rw [hleft]; exact Bool.false_ne_true)]
  split
  · rename_i htorn
    cases htorn.symm.trans hread
  · rename_i hother
    cases hother.symm.trans hread
  rename_i hok
  obtain ⟨rfl, rfl⟩ := Prod.mk.inj (Except.ok.inj (hok.symm.trans hread))
  split
  · rename_i herror
    cases herror.symm.trans hindent
  rename_i hstop
  obtain ⟨-, rfl⟩ := Prod.mk.inj (Except.ok.inj (hstop.symm.trans hindent))
  rfl

end

theorem isEmpty_left {cursor : Cursor} (hleads : (Cursor.ofText code).Leads cursor) :
    (left code cursor.offset).isEmpty = cursor.rest.isEmpty := by
  rw [left_offset hleads]
  cases hrest : cursor.rest with
  | nil => rfl
  | cons char rest =>
      have hne := List.append_ne_nil_of_left_ne_nil (charOctets_ne_nil char) (octets rest)
      rw [octets_cons, List.isEmpty_eq_false_iff.mpr hne]
      rfl

theorem endsStatement_left {cursor : Cursor} (hleads : (Cursor.ofText code).Leads cursor) :
    endsStatement (left code cursor.offset) = endsStatement cursor.rest := by
  rw [left_offset hleads, endsStatement_ascii.octets]

theorem clutter?_offset {cursor : Cursor} (hleads : (Cursor.ofText code).Leads cursor) :
    clutter? code cursor.offset = some (Script.clutter cursor) := by
  rw [clutter?, excerpt_offset hleads]
  rfl

theorem readStatements_offset {cursor : Cursor} (hleads : (Cursor.ofText code).Leads cursor) :
    readStatements code cursor.offset = some (Script.readStatements cursor) := by
  induction hlength : cursor.rest.length using Nat.strong_induction_on generalizing cursor with
  | _ length ih =>
      have hblank := hleads.trans cursor.leads_skipBlank
      have hskip := skipBlank_offset hleads
      have hstatement := statement_mirrors.agrees cursor.skipBlank hblank
      have hleft := isEmpty_left hblank
      by_cases hrest : cursor.skipBlank.rest = []
      · rw [hrest] at hleft
        rw [readStatements_of_blank hskip hleft, Script.readStatements_of_blank hrest]
      rw [List.isEmpty_eq_false_iff.mpr hrest] at hleft
      cases hread : Reading.statement cursor.skipBlank with
      | error complaint =>
          rw [hread] at hstatement
          rw [readStatements_of_error hskip hleft hstatement,
            Script.readStatements_of_error hrest hread]
      | ok result =>
          obtain ⟨found, later⟩ := result
          have hlater := hblank.trans (Reading.statement_advances _ _ _ hread)
          have hindent := hlater.trans later.leads_skipIndent
          rw [hread] at hstatement
          rw [readStatements_of_ok hskip hleft hstatement
            (skipIndent_mirrors.agrees later hlater), Script.readStatements_of_ok hrest hread,
            endsStatement_left hindent]
          split
          · have hshort : later.skipIndent.rest.length < length := by
              have hlt := Reading.length_lt_of_statement hread
              have hafter := later.leads_skipIndent.length_le
              have hbefore := cursor.leads_skipBlank.length_le
              omega
            rw [ih _ hshort hindent rfl]
            rfl
          · rw [clutter?_offset hindent]
            rfl

def eatHeader (code : List Char) : Scan Bool :=
  attempt code (skipWord? code Reading.followsKeyword Script.headerWord)

theorem eatHeader_mirrors : Mirrors code (eatHeader code)
    (Reading.attempt (·.skipWord? Reading.followsKeyword Script.headerWord)) :=
  attempt_mirrors (Reading.attempt_advances fun _ _ hskip => Cursor.leads_skipWord? hskip)
    fun _ hleads => skipWord?_offset hleads followsKeyword_octets (by decide)

theorem eatHeader_offset {cursor : Cursor} (hleads : (Cursor.ofText code).Leads cursor) :
    eatHeader code cursor.offset =
      match cursor.skipWord? Reading.followsKeyword Script.headerWord with
      | some later => .ok (true, later.offset)
      | none => .ok (false, cursor.offset) := by
  rw [eatHeader_mirrors.agrees cursor hleads, Reading.attempt_eq]
  cases cursor.skipWord? Reading.followsKeyword Script.headerWord <;> rfl

/-- The script of the code. There is none if a scan is torn. -/
def readScript (code : List Char) : Option Script :=
  match skipBlank code 0 with
  | .error _ => none
  | .ok (_, header) =>
      match eatHeader code header with
      | .error _ => none
      | .ok (false, _) =>
          some { header, statements := [], ending := .unreadable header .missingHeader }
      | .ok (true, later) =>
          match skipIndent code later with
          | .error _ => none
          | .ok (_, stop) =>
              if endsStatement (left code stop) then
                (readStatements code stop).map fun (statements, ending) =>
                  { header, statements, ending }
              else
                (clutter? code stop).map fun ending => { header, statements := [], ending }

/-- **Scripts in octets.** The script that the octets give is the one that the characters give. -/
theorem readScript_eq (code : List Char) : readScript code = some (Script.read code) := by
  have hstart : (Cursor.ofText code).Leads (Cursor.ofText code) := .refl _
  have hblank := hstart.trans (Cursor.ofText code).leads_skipBlank
  have hskip : skipBlank code 0 = .ok ((), (Cursor.ofText code).skipBlank.offset) :=
    skipBlank_offset hstart
  rw [readScript, hskip]
  simp only [eatHeader_offset hblank]
  cases hheader : (Cursor.ofText code).skipBlank.skipWord? Reading.followsKeyword
      Script.headerWord with
  | none =>
      rw [Script.read_of_no_header hheader]
  | some later =>
      have hlater := hblank.trans (Cursor.leads_skipWord? hheader)
      have hindent := hlater.trans later.leads_skipIndent
      have hskipIndent : skipIndent code later.offset = .ok ((), later.skipIndent.offset) :=
        skipIndent_mirrors.agrees later hlater
      simp only [hskipIndent]
      rw [Script.read_of_header hheader, endsStatement_left hindent]
      split
      · rw [readStatements_offset hindent]
        rfl
      · rw [clutter?_offset hindent]
        rfl

end Scan

/-- The place that an ending is told with. -/
def Ending.place : Ending → Nat
  | .complete offset | .unreadable offset _ | .cluttered offset _ => offset

/-- The places that faults may be told with. -/
def Script.places (script : Script) : List Nat :=
  script.header :: script.ending.place :: script.statements.map Prod.fst

namespace Script

variable {code : List Char} {place : Nat}

theorem exists_cursor {cursor : Cursor}
    (hplace : place ∈ (readStatements cursor).2.place :: (readStatements cursor).1.map Prod.fst) :
    ∃ later, cursor.Leads later ∧ later.offset = place := by
  induction hlength : cursor.rest.length using Nat.strong_induction_on generalizing cursor with
  | _ length ih =>
      have hblank := cursor.leads_skipBlank
      rcases readStatements_cases cursor with ⟨-, hstatements⟩ | ⟨complaint, -, hstatements⟩ |
        ⟨statement, later, hrest, hread, hlast⟩
      · rw [hstatements] at hplace
        exact ⟨_, hblank, (List.mem_singleton.mp hplace).symm⟩
      · rw [hstatements] at hplace
        exact ⟨_, hblank, (List.mem_singleton.mp hplace).symm⟩
      have hstop := hblank.trans
        ((Reading.statement_advances _ _ _ hread).trans later.leads_skipIndent)
      rcases hlast with ⟨-, hstatements⟩ | hstatements
      · rw [hstatements, List.map_cons, List.mem_cons, List.mem_cons, or_left_comm,
          ← List.mem_cons] at hplace
        rcases hplace with rfl | hlater
        · exact ⟨_, hblank, rfl⟩
        · have hshort : later.skipIndent.rest.length < length := by
            have hlt := Reading.length_lt_of_statement hread
            have hle := later.leads_skipIndent.length_le
            have hbefore := hblank.length_le
            omega
          obtain ⟨found, hleads, hoffset⟩ := ih _ hshort hlater rfl
          exact ⟨found, hstop.trans hleads, hoffset⟩
      · rw [hstatements, List.map_singleton, List.mem_cons, List.mem_singleton] at hplace
        rcases hplace with rfl | rfl
        · exact ⟨_, hstop, rfl⟩
        · exact ⟨_, hblank, rfl⟩

/-- There is a cursor at every place of a script. -/
theorem exists_cursor_of_mem (hplace : place ∈ (read code).places) :
    ∃ cursor, (Cursor.ofText code).Leads cursor ∧ cursor.offset = place := by
  have hblank := (Cursor.ofText code).leads_skipBlank
  cases hheader : (Cursor.ofText code).skipBlank.skipWord? Reading.followsKeyword headerWord with
  | none =>
      rw [read_of_no_header hheader] at hplace
      simp only [places, Ending.place, List.map_nil, List.mem_cons, List.not_mem_nil, or_false,
        or_self] at hplace
      exact ⟨_, hblank, hplace.symm⟩
  | some later =>
      have hstop := hblank.trans
        ((Cursor.leads_skipWord? hheader).trans later.leads_skipIndent)
      rw [read_of_header hheader] at hplace
      split at hplace
      · rcases List.mem_cons.mp hplace with rfl | hstatements
        · exact ⟨_, hblank, rfl⟩
        · obtain ⟨found, hleads, hoffset⟩ := exists_cursor hstatements
          exact ⟨found, hstop.trans hleads, hoffset⟩
      · simp only [places, clutter, Ending.place, List.map_nil, List.mem_cons, List.not_mem_nil,
          or_false] at hplace
        rcases hplace with rfl | rfl
        · exact ⟨_, hblank, rfl⟩
        · exact ⟨_, hstop, rfl⟩

end Script

namespace Session

variable {session next last : Session} {place : Nat} {fault : Fault}

theorem openBlocks_carryOut {statement : Statement} {reported : Option Fault}
    (hcarry : session.carryOut place statement = (next, reported)) :
    ∀ block ∈ next.openBlocks, block ∈ session.openBlocks ∨ block.2 = place := by
  obtain rfl : (session.carryOut place statement).1 = next := congrArg Prod.fst hcarry
  intro block hblock
  cases statement with
  | opening kind label =>
      rcases List.mem_cons.mp hblock with rfl | hblock
      · exact .inr rfl
      · exact .inl hblock
  | deactivate actor =>
      rw [carryOut, deactivate] at hblock
      split at hblock <;> exact .inl hblock
  | divider kind label =>
      rw [carryOut, divideBlock] at hblock
      split at hblock <;> exact .inl hblock
  | closing =>
      rw [carryOut, closeBlock] at hblock
      split at hblock
      · exact .inl hblock
      · rename_i hblocks
        exact .inl (hblocks ▸ List.mem_cons_of_mem _ hblock)
  | message source target kind edge text =>
      rcases edge with _ | _ | _
      · exact .inl hblock
      · exact .inl hblock
      · rw [carryOut, addMessage, deactivate] at hblock
        dsimp only at hblock
        split at hblock <;> exact .inl hblock
  | _ => exact .inl hblock

theorem openBlocks_runSteps {items : List (Nat × Statement)}
    (hrun : runSteps step session items = (next, none)) :
    ∀ block ∈ next.openBlocks, block ∈ session.openBlocks ∨ block.2 ∈ items.map Prod.fst := by
  induction items generalizing session with
  | nil =>
      obtain rfl := congrArg Prod.fst hrun
      exact fun _ => .inl
  | cons item items ih =>
      obtain ⟨mid, hstep, hrest⟩ := runSteps_cons_eq_none_iff.mp hrun
      intro block hblock
      rw [List.map_cons, List.mem_cons]
      rcases ih hrest block hblock with hmid | hlater
      · obtain rfl := congrArg Prod.fst hstep
        rcases openBlocks_carryOut (Prod.mk.eta).symm block hmid with hearlier | hplace
        · exact .inl hearlier
        · exact .inr (.inl hplace)
      · exact .inr (.inr hlater)

/-- Faults are told with places of the script. -/
theorem place_of_run {script : Script} (hopen : session.openBlocks = [])
    (hrun : session.run script = (last, some (place, fault))) : place ∈ script.places := by
  rcases run_eq_some hrun with ⟨mid, hsteps, hfinish⟩ |
    ⟨earlier, statement, later, mid, hitems, -, -⟩
  · cases hending : script.ending with
    | complete offset =>
        rw [hending] at hfinish
        obtain ⟨⟨kind, start⟩, hhead, hunclosed⟩ :=
          Option.map_eq_some_iff.mp (Prod.mk.inj hfinish).2
        obtain rfl := (Prod.mk.inj hunclosed).1
        rcases openBlocks_runSteps hsteps _ (List.mem_of_head? hhead) with hearlier | hplace
        · change _ ∈ session.openBlocks at hearlier
          rw [hopen] at hearlier
          exact absurd hearlier List.not_mem_nil
        · exact List.mem_cons_of_mem _ (List.mem_cons_of_mem _ hplace)
    | unreadable offset complaint =>
        rw [hending] at hfinish
        cases hfinish
        rw [Script.places, hending]
        exact List.mem_cons_of_mem _ List.mem_cons_self
    | cluttered offset complaint =>
        rw [hending] at hfinish
        cases hfinish
        rw [Script.places, hending]
        exact List.mem_cons_of_mem _ List.mem_cons_self
  · have hmem : place ∈ script.statements.map Prod.fst := by
      rw [hitems, List.map_append, List.map_cons]
      exact List.mem_append_right _ List.mem_cons_self
    exact List.mem_cons_of_mem _ (List.mem_cons_of_mem _ hmem)

end Session

/-- Reads the octets of the code of a diagram into a chart. There is none if a slice is torn. -/
def Chart.readOctets (chart : Chart) (code : String) (switches : List WrapSwitch) :
    Option (Chart × Option ReadingError) := do
  let session := Session.mk chart switches []
  let (last, fault) := session.run (← Scan.readScript code.toList)
  match fault with
  | none => return (last.chart, none)
  | some (place, fault) =>
      return (last.chart, some { position := ← lineColumn? code.toList place, fault })

/-- **Code in octets.** Whatever the chart, its code and the switches are, no slice is torn. -/
theorem Chart.readOctets_eq (chart : Chart) (code : String) (switches : List WrapSwitch) :
    chart.readOctets code switches = some (chart.readCode code switches) := by
  rw [readOctets, Scan.readScript_eq, readCode]
  simp only [Option.bind_eq_bind, Option.bind_some]
  cases hrun : (Session.mk chart switches []).run (Script.read code.toList) with
  | mk last fault =>
      cases fault with
      | none => rfl
      | some found =>
          obtain ⟨place, fault⟩ := found
          have hplace := Session.place_of_run rfl hrun
          obtain ⟨cursor, hleads, rfl⟩ := Script.exists_cursor_of_mem hplace
          simp only [Cursor.lineColumn?_offset hleads]
          rfl

end SequenceChart
