import SequenceChart.Proofs.Locality
import SequenceChart.Proofs.Scripts

/-!
# Truncated scripts

The code of a diagram is cut off before one of its statements. What is read from the first part is
what was read before that statement, and the reading is complete.
-/

namespace SequenceChart

variable {tail left : List Char}

theorem blankLength_le_length (inComment : Bool) (text : List Char) :
    blankLength inComment text ≤ text.length := by
  induction text generalizing inComment with
  | nil => exact Nat.le_refl 0
  | cons char rest ih =>
      have hcomment := ih true
      have hblank := ih false
      rw [List.length_cons]
      by_cases hbreak : char = '\n'
      · rw [hbreak, blankLength]
        omega
      · cases inComment with
        | true =>
            rw [blankLength_true_cons hbreak]
            omega
        | false =>
            rw [blankLength_false_cons hbreak]
            split
            · omega
            · split <;> omega

theorem endsStatement_of_part {char : Char} {rest part : List Char} (hpart : part <+: rest)
    (hends : endsStatement (char :: part) = true) : endsStatement (char :: rest) = true := by
  apply endsStatement_cons_imp _ hends
  intro hpercent
  obtain ⟨more, rfl⟩ := hpart
  rw [List.head?_append, hpercent]
  rfl

/-- A part of a text that holds a character after the start of a comment still starts it. -/
theorem endsStatement_of_blankLength {char : Char} {rest part : List Char} (hpart : part <+: rest)
    (hlength : blankLength true rest ≤ part.length) (hends : endsStatement (char :: rest) = true) :
    endsStatement (char :: part) = true := by
  apply endsStatement_cons_imp _ hends
  intro hpercent
  have hne : rest ≠ [] := by
    rintro rfl
    cases hpercent
  have hpositive := blankLength_true_pos hne
  obtain ⟨second, more, rfl⟩ := List.exists_cons_of_length_pos (by omega : 0 < part.length)
  obtain ⟨others, rfl⟩ := hpart
  exact hpercent

/-- The blanks at the start of a text are those of every part that holds them all. -/
theorem blankLength_of_part {text part : List Char} {inComment : Bool} (hpart : part <+: text)
    (hlength : blankLength inComment text ≤ part.length) :
    blankLength inComment part = blankLength inComment text := by
  induction text generalizing part inComment with
  | nil => rw [List.prefix_nil.mp hpart]
  | cons char rest ih =>
      cases part with
      | nil => exact (Nat.le_zero.mp hlength).symm
      | cons other part =>
          obtain ⟨rfl, hrest⟩ := List.cons_prefix_cons.mp hpart
          rw [List.length_cons] at hlength
          by_cases hbreak : other = '\n'
          · rw [hbreak, blankLength] at hlength ⊢
            rw [blankLength, ih hrest (by omega)]
          · cases inComment with
            | true =>
                rw [blankLength_true_cons hbreak] at hlength
                rw [blankLength_true_cons hbreak, blankLength_true_cons hbreak,
                  ih hrest (by omega)]
            | false =>
                rw [blankLength_false_cons hbreak] at hlength
                rw [blankLength_false_cons hbreak, blankLength_false_cons hbreak]
                by_cases hindent : (isIndent other || other == ';') = true
                · rw [if_pos hindent] at hlength
                  rw [if_pos hindent, if_pos hindent, ih hrest (by omega)]
                · rw [if_neg hindent] at hlength
                  rw [if_neg hindent, if_neg hindent]
                  by_cases hends : endsStatement (other :: rest) = true
                  · rw [if_pos hends] at hlength
                    have hcomment : blankLength true rest ≤ part.length := by omega
                    rw [if_pos hends, ih hrest hcomment,
                      if_pos (endsStatement_of_blankLength hrest hcomment hends)]
                  · rw [if_neg hends, if_neg]
                    intro hpartEnds
                    exact hends (endsStatement_of_part hrest hpartEnds)

/-- A part of the text behind a statement that holds the blanks there ends the statement. -/
theorem Cut.of_blankLength (hends : endsStatement tail = true) (hpart : left <+: tail)
    (hlength : blankLength false tail ≤ left.length) : Cut tail left := by
  cases tail with
  | nil =>
      rw [List.prefix_nil.mp hpart]
      exact ⟨rfl, rfl, rfl, List.prefix_rfl⟩
  | cons char rest =>
      by_cases hbreak : char = '\n'
      · subst hbreak
        rw [blankLength] at hlength
        obtain ⟨other, part, rfl⟩ := List.exists_cons_of_length_pos (by omega : 0 < left.length)
        obtain ⟨rfl, -⟩ := List.cons_prefix_cons.mp hpart
        exact ⟨rfl, rfl, rfl, hpart⟩
      · rw [blankLength_false_cons hbreak, if_pos hends] at hlength
        obtain ⟨other, part, rfl⟩ := List.exists_cons_of_length_pos
          (by split at hlength <;> omega : 0 < left.length)
        obtain ⟨rfl, hrest⟩ := List.cons_prefix_cons.mp hpart
        refine ⟨hends, ?_, rfl, hpart⟩
        by_cases hindent : (isIndent other || other == ';') = true
        · obtain rfl : other = ';' := by
            have hmem := head?_mem_of_ends hends rfl
            simp only [List.mem_cons, List.not_mem_nil, or_false] at hmem
            rcases hmem with rfl | rfl | rfl | rfl
            · exact absurd rfl hbreak
            · rfl
            · exact absurd hindent (by decide)
            · exact absurd hindent (by decide)
          rfl
        · rw [if_neg hindent, List.length_cons] at hlength
          exact endsStatement_of_blankLength hrest (by omega) hends

theorem Cursor.Matches.skipBlank {cursor twin : Cursor} (hmatches : cursor.Matches tail left twin)
    (hpart : left <+: tail) (hbefore : tail.length ≤ cursor.skipBlank.rest.length) :
    cursor.skipBlank.Matches tail left twin.skipBlank := by
  obtain ⟨kept, hrest, htwin, hoffset⟩ := hmatches
  have hlength : blankLength false (kept ++ tail) ≤ kept.length := by
    rw [Cursor.skipBlank, Cursor.skip, hrest, List.length_drop, List.length_append] at hbefore
    have hle := blankLength_le_length false (kept ++ tail)
    rw [List.length_append] at hle
    omega
  have hsame : blankLength false (kept ++ left) = blankLength false (kept ++ tail) := by
    refine blankLength_of_part ((List.prefix_append_right_inj kept).mpr hpart) ?_
    rw [List.length_append]
    omega
  unfold Cursor.skipBlank
  rw [hrest, htwin, hsame]
  exact Matches.skip hrest htwin hoffset hlength

/-- Where only the blanks before a cursor are left, the text ends behind them. -/
theorem Cursor.skipBlank_before (cursor : Cursor) :
    (cursor.rest.take (blankLength false cursor.rest)).length = blankLength false cursor.rest ∧
      (Cursor.mk (cursor.rest.take (blankLength false cursor.rest)) cursor.offset).skipBlank =
        ⟨[], cursor.skipBlank.offset⟩ := by
  have hlength : (cursor.rest.take (blankLength false cursor.rest)).length =
      blankLength false cursor.rest :=
    List.length_take_of_le (blankLength_le_length false cursor.rest)
  have hsame := blankLength_of_part (List.take_prefix _ cursor.rest) (Nat.le_of_eq hlength.symm)
  refine ⟨hlength, ?_⟩
  simp only [skipBlank, skip, hsame, List.take_take, Nat.min_self,
    List.drop_of_length_le (Nat.le_of_eq hlength)]

theorem Cursor.Matches.eq_left {cursor twin : Cursor}
    (hmatches : cursor.Matches cursor.rest left twin) : twin = ⟨left, cursor.offset⟩ := by
  obtain ⟨kept, hrest, htwin, hoffset⟩ := hmatches
  obtain rfl := List.append_cancel_right (hrest.symm.trans (List.nil_append _).symm)
  calc
    twin = ⟨twin.rest, twin.offset⟩ := rfl
    _ = ⟨left, cursor.offset⟩ := by rw [htwin, hoffset, List.nil_append]

namespace Script

variable {cursor place : Cursor} {items more : List (Nat × Statement)} {ending : Ending}

/-- The cursor moves to the place behind the given statements, each of which ends properly. -/
inductive Reaches : Cursor → List (Nat × Statement) → Cursor → Prop
  | here (cursor : Cursor) : Reaches cursor [] cursor
  | next {cursor later place : Cursor} {statement : Statement} {items : List (Nat × Statement)} :
      cursor.skipBlank.rest ≠ [] → Reading.statement cursor.skipBlank = .ok (statement, later) →
      endsStatement later.skipIndent.rest = true → Reaches later.skipIndent items place →
      Reaches cursor ((cursor.skipBlank.offset, statement) :: items) place

theorem readStatements_cases (cursor : Cursor) :
    (cursor.skipBlank.rest = [] ∧
        readStatements cursor = ([], .complete cursor.skipBlank.offset)) ∨
      (∃ complaint, Reading.statement cursor.skipBlank = .error complaint ∧
        readStatements cursor = ([], .unreadable cursor.skipBlank.offset complaint)) ∨
      ∃ statement later, cursor.skipBlank.rest ≠ [] ∧
        Reading.statement cursor.skipBlank = .ok (statement, later) ∧
        ((endsStatement later.skipIndent.rest = true ∧
            readStatements cursor =
              ((cursor.skipBlank.offset, statement) :: (readStatements later.skipIndent).1,
                (readStatements later.skipIndent).2)) ∨
          readStatements cursor =
            ([(cursor.skipBlank.offset, statement)], clutter later.skipIndent)) := by
  by_cases hblank : cursor.skipBlank.rest = []
  · exact .inl ⟨hblank, readStatements_of_blank hblank⟩
  · cases hread : Reading.statement cursor.skipBlank with
    | error complaint => exact .inr (.inl ⟨complaint, rfl, readStatements_of_error hblank hread⟩)
    | ok found =>
        obtain ⟨statement, later⟩ := found
        refine .inr (.inr ⟨statement, later, hblank, rfl, ?_⟩)
        have hstatements := readStatements_of_ok hblank hread
        by_cases hends : endsStatement later.skipIndent.rest = true
        · exact .inl ⟨hends, hstatements.trans (if_pos hends)⟩
        · exact .inr (hstatements.trans (if_neg hends))

theorem offset_of_unreadable {offset : Nat} {complaint : Complaint}
    (hread : readStatements cursor = ([], .unreadable offset complaint)) :
    cursor.skipBlank.offset = offset := by
  rcases readStatements_cases cursor with ⟨-, hstatements⟩ | ⟨other, -, hstatements⟩ |
    ⟨statement, later, -, -, ⟨-, hstatements⟩ | hstatements⟩
  · cases hread.symm.trans hstatements
  · exact (Ending.unreadable.inj (Prod.mk.inj (hread.symm.trans hstatements)).2).1.symm
  · cases hread.symm.trans hstatements
  · cases hread.symm.trans hstatements

theorem statement_of_cons {offset : Nat} {statement : Statement}
    (hread : readStatements cursor = ((offset, statement) :: more, ending)) :
    cursor.skipBlank.offset = offset ∧
      ∃ later, Reading.statement cursor.skipBlank = .ok (statement, later) := by
  have hfirst := congrArg (fun read => read.1.head?) hread
  rcases readStatements_cases cursor with ⟨-, hstatements⟩ | ⟨other, -, hstatements⟩ |
    ⟨found, later, -, hfound, ⟨-, hstatements⟩ | hstatements⟩
  · cases hread.symm.trans hstatements
  · cases hread.symm.trans hstatements
  all_goals
    rw [hstatements] at hfirst
    obtain ⟨hoffset, rfl⟩ := Prod.mk.inj (Option.some.inj hfirst)
    exact ⟨hoffset, later, hfound⟩

/-- Statements are read one after the other, unless the last one is followed by clutter. -/
theorem reaches_of_readStatements (hread : readStatements cursor = (items ++ more, ending)) :
    (∃ place, Reaches cursor items place ∧ readStatements place = (more, ending)) ∨
      more = [] ∧ ∃ stop, ending = clutter stop := by
  induction items generalizing cursor with
  | nil => exact .inl ⟨cursor, .here cursor, hread⟩
  | cons item items ih =>
      rcases readStatements_cases cursor with ⟨-, hstatements⟩ | ⟨complaint, -, hstatements⟩ |
        ⟨statement, later, hblank, hstatement, ⟨hends, hstatements⟩ | hstatements⟩
      · simp [hstatements] at hread
      · simp [hstatements] at hread
      · rw [hstatements, List.cons_append, Prod.mk.injEq, List.cons.injEq] at hread
        obtain ⟨⟨rfl, hitems⟩, hending⟩ := hread
        rcases ih (Prod.ext hitems hending) with ⟨place, hreaches, hplace⟩ | hclutter
        · exact .inl ⟨place, .next hblank hstatement hends hreaches, hplace⟩
        · exact .inr hclutter
      · rw [hstatements, List.cons_append, Prod.mk.injEq, List.cons.injEq] at hread
        obtain ⟨⟨-, hitems⟩, hending⟩ := hread
        exact .inr ⟨(List.append_eq_nil_iff.mp hitems.symm).2, _, hending.symm⟩

/-- A statement that ends properly is read alike where the text behind it is cut. -/
theorem statement_before_cut {later : Cursor} {statement : Statement} {kept : List Char}
    (hstatement : Reading.statement cursor.skipBlank = .ok (statement, later))
    (hcut : Cut later.skipIndent.rest left) (hrest : cursor.rest = kept ++ later.skipIndent.rest) :
    let twin : Cursor := ⟨kept ++ left, cursor.offset⟩
    twin.skipBlank.rest ≠ [] ∧ twin.skipBlank.offset = cursor.skipBlank.offset ∧
      ∃ laterTwin, Reading.statement twin.skipBlank = .ok (statement, laterTwin) ∧
        laterTwin.skipIndent = ⟨left, later.skipIndent.offset⟩ := by
  intro twin
  have hkept : later.skipIndent.rest <:+ later.rest := by
    obtain ⟨indent, hindent, -⟩ := later.leads_skipIndent
    exact ⟨indent, hindent.symm⟩
  have hbefore : later.skipIndent.rest.length ≤ cursor.skipBlank.rest.length :=
    Nat.le_trans hkept.length_le (Reading.statement_advances _ _ _ hstatement).length_le
  have hmatches : cursor.Matches later.skipIndent.rest left twin := ⟨kept, hrest, rfl, rfl⟩
  have hstart := hmatches.skipBlank hcut.part hbefore
  obtain ⟨laterTwin, htwin, hlater⟩ := Reading.statement_local.cut hcut hstart hstatement hkept
  have hlt := Reading.length_lt_of_statement htwin
  obtain ⟨-, -, -, hoffset⟩ := hstart
  exact ⟨List.ne_nil_of_length_pos (by omega), hoffset, laterTwin, htwin,
    (hlater.skipIndent hcut).eq_left⟩

/-- The text before a place, with the blanks there, makes the statements that lead to it. -/
theorem Reaches.truncate (hreaches : Reaches cursor items place) :
    ∃ passed, cursor.rest = passed ++ place.skipBlank.rest ∧
      place.skipBlank.offset = cursor.offset + byteLength passed ∧
      blankLength false cursor.rest ≤ passed.length ∧
      readStatements ⟨passed, cursor.offset⟩ = (items, .complete place.skipBlank.offset) := by
  induction hreaches with
  | here cursor =>
      obtain ⟨hlength, hskip⟩ := cursor.skipBlank_before
      refine ⟨_, (List.take_append_drop _ cursor.rest).symm, rfl, Nat.le_of_eq hlength.symm, ?_⟩
      rw [readStatements_of_blank (by rw [hskip]), hskip]
  | @next cursor later place statement items hblank hstatement hends hreaches ih =>
      obtain ⟨passed, hrest, hoffset, hlength, hitems⟩ := ih
      have hcut : Cut later.skipIndent.rest passed :=
        .of_blankLength hends ⟨_, hrest.symm⟩ hlength
      have hleads : cursor.skipBlank.Leads later.skipIndent :=
        (Reading.statement_advances _ _ _ hstatement).trans later.leads_skipIndent
      obtain ⟨kept, hkept, hstop⟩ := cursor.leads_skipBlank.trans hleads
      obtain ⟨hblankTwin, hstart, laterTwin, htwin, hlaterTwin⟩ :=
        statement_before_cut hstatement hcut hkept
      refine ⟨kept ++ passed, ?_, ?_, ?_, ?_⟩
      · rw [hkept, hrest, List.append_assoc, ← hrest]
      · rw [hoffset, hstop, byteLength_append, Nat.add_assoc]
      · have hle := hleads.length_le
        have hblanks := blankLength_le_length false cursor.rest
        have hcount := congrArg List.length hkept
        rw [Cursor.skipBlank, Cursor.skip, List.length_drop] at hle
        rw [List.length_append] at hcount ⊢
        omega
      · rw [readStatements_of_ok hblankTwin htwin, hstart, hlaterTwin, if_pos hcut.ends_left,
          hitems]

variable {code : List Char}

theorem read_of_no_header
    (hheader : (Cursor.ofText code).skipBlank.skipWord? Reading.followsKeyword headerWord = none) :
    read code = ⟨(Cursor.ofText code).skipBlank.offset, [],
      .unreadable (Cursor.ofText code).skipBlank.offset .missingHeader⟩ := by
  simp only [read, hheader]

theorem read_of_header {later : Cursor}
    (hheader : (Cursor.ofText code).skipBlank.skipWord? Reading.followsKeyword headerWord =
      some later) :
    read code =
      if endsStatement later.skipIndent.rest then
        ⟨(Cursor.ofText code).skipBlank.offset, (readStatements later.skipIndent).1,
          (readStatements later.skipIndent).2⟩
      else ⟨(Cursor.ofText code).skipBlank.offset, [], clutter later.skipIndent⟩ := by
  simp only [read, hheader]

/-- The blanks before a missing header lack it in the same place. -/
theorem read_before_no_header
    (hheader : (Cursor.ofText code).skipBlank.skipWord? Reading.followsKeyword headerWord = none) :
    ∃ before, code = before ++ (Cursor.ofText code).skipBlank.rest ∧
      (Cursor.ofText code).skipBlank.offset = byteLength before ∧
      read before = read code := by
  have hskip : (Cursor.ofText (code.take (blankLength false code))).skipBlank =
      ⟨[], (Cursor.ofText code).skipBlank.offset⟩ := (Cursor.ofText code).skipBlank_before.2
  refine ⟨code.take (blankLength false code), (List.take_append_drop _ code).symm,
    Nat.zero_add _, ?_⟩
  have hnone : (Cursor.ofText (code.take (blankLength false code))).skipBlank.skipWord?
      Reading.followsKeyword headerWord = none := by
    rw [hskip]
    rfl
  rw [read_of_no_header hheader, read_of_no_header hnone, hskip]

theorem read_before_place {later : Cursor}
    (hheader : (Cursor.ofText code).skipBlank.skipWord? Reading.followsKeyword headerWord =
      some later)
    (hends : endsStatement later.skipIndent.rest = true)
    (hreaches : Reaches later.skipIndent items place) :
    ∃ before, code = before ++ place.skipBlank.rest ∧
      place.skipBlank.offset = byteLength before ∧
      read before =
        ⟨(Cursor.ofText code).skipBlank.offset, items, .complete place.skipBlank.offset⟩ := by
  obtain ⟨passed, hrest, hoffset, hlength, hitems⟩ := hreaches.truncate
  have hcut : Cut later.skipIndent.rest passed := .of_blankLength hends ⟨_, hrest.symm⟩ hlength
  have hleads : (Cursor.ofText code).skipBlank.Leads later.skipIndent :=
    (Cursor.leads_skipWord? hheader).trans later.leads_skipIndent
  obtain ⟨kept, hkept, hstop⟩ := (Cursor.ofText code).leads_skipBlank.trans hleads
  have hmatches : (Cursor.ofText code).Matches later.skipIndent.rest passed
      (Cursor.ofText (kept ++ passed)) := ⟨kept, hkept, rfl, rfl⟩
  have hstart := hmatches.skipBlank hcut.part hleads.length_le
  refine ⟨kept ++ passed, ?_, ?_, ?_⟩
  · exact hkept.trans (by rw [hrest, List.append_assoc, ← hrest])
  · rw [hoffset, hstop, byteLength_append, Nat.add_assoc]
    exact Nat.zero_add _
  · rcases Cursor.alike_skipWord? hcut (by decide : Lettered headerWord)
        Reading.followsKeyword_congr hstart with
      ⟨hnone, -⟩ | ⟨found, foundTwin, hfound, htwin, hlater⟩
    · cases hnone.symm.trans hheader
    · obtain rfl := Option.some.inj (hfound.symm.trans hheader)
      obtain ⟨-, -, -, hoffsetTwin⟩ := hstart
      rw [read_of_header htwin, (hlater.skipIndent hcut).eq_left, if_pos hcut.ends_left, hitems,
        hoffsetTwin]

/-- What comes before a place between two statements is a script of its own. -/
theorem read_split (hstatements : (read code).statements = items ++ more) :
    (items ++ more = [] ∧ (read code).ending = .unreadable (read code).header .missingHeader ∧
        ∃ before after, code = before ++ after ∧ (read code).header = byteLength before ∧
          read before = read code) ∨
      (∃ place before, code = before ++ place.skipBlank.rest ∧
          place.skipBlank.offset = byteLength before ∧
          read before = ⟨(read code).header, items, .complete place.skipBlank.offset⟩ ∧
          readStatements place = (more, (read code).ending)) ∨
      more = [] ∧ ∃ stop, (read code).ending = clutter stop := by
  cases hheader : (Cursor.ofText code).skipBlank.skipWord? Reading.followsKeyword headerWord with
  | none =>
      obtain ⟨before, hcode, hoffset, hread⟩ := read_before_no_header hheader
      rw [read_of_no_header hheader] at hstatements hread ⊢
      exact .inl ⟨hstatements.symm, rfl, before, _, hcode, hoffset, hread⟩
  | some later =>
      rw [read_of_header hheader] at hstatements ⊢
      by_cases hends : endsStatement later.skipIndent.rest = true
      · rw [if_pos hends] at hstatements ⊢
        rcases reaches_of_readStatements (Prod.ext hstatements rfl) with
          ⟨place, hreaches, hplace⟩ | hclutter
        · obtain ⟨before, hcode, hoffset, hread⟩ := read_before_place hheader hends hreaches
          exact .inr (.inl ⟨place, before, hcode, hoffset, hread, hplace⟩)
        · exact .inr (.inr hclutter)
      · rw [if_neg hends] at hstatements ⊢
        exact .inr (.inr ⟨(List.append_eq_nil_iff.mp hstatements.symm).2, _, rfl⟩)

theorem unexpected_of_cluttered {offset : Nat} {complaint : Complaint}
    (hending : (read code).ending = .cluttered offset complaint) :
    ∃ excerpt, complaint = .unexpected excerpt := by
  rcases read_split (List.append_nil (read code).statements).symm with
    ⟨-, hmissing, -⟩ | ⟨place, before, -, -, -, hplace⟩ | ⟨-, stop, hstop⟩
  · cases hending.symm.trans hmissing
  · rw [hending] at hplace
    rcases readStatements_cases place with ⟨-, hlast⟩ | ⟨other, -, hlast⟩ |
      ⟨found, next, -, -, ⟨-, hlast⟩ | hlast⟩
    all_goals cases hlast.symm.trans hplace
  · exact ⟨_, (Ending.cluttered.inj (hending.symm.trans hstop)).2⟩

/-- Before a text that is no statement, the script is the same and ends there. -/
theorem read_before_unreadable {offset : Nat} {complaint : Complaint}
    (hending : (read code).ending = .unreadable offset complaint) :
    ∃ before after, code = before ++ after ∧ offset = byteLength before ∧
      (read before = read code ∨ read before = { read code with ending := .complete offset }) := by
  rcases read_split (List.append_nil (read code).statements).symm with
    ⟨-, hmissing, before, after, hcode, hoffset, hread⟩ |
    ⟨place, before, hcode, hoffset, hread, hplace⟩ | ⟨-, stop, hstop⟩
  · obtain ⟨rfl, -⟩ := Ending.unreadable.inj (hending.symm.trans hmissing)
    exact ⟨before, after, hcode, hoffset, .inl hread⟩
  · rw [hending] at hplace
    rw [offset_of_unreadable hplace] at hoffset hread
    exact ⟨before, _, hcode, hoffset, .inr hread⟩
  · cases hending.symm.trans hstop

/-- Before a statement, the script has the statements that stand there. -/
theorem read_before_statement {offset : Nat} {statement : Statement}
    (hstatements : (read code).statements = items ++ (offset, statement) :: more) :
    ∃ before after, code = before ++ after ∧ offset = byteLength before ∧
      read before = ⟨(read code).header, items, .complete offset⟩ ∧
      ∃ later, Reading.statement ⟨after, offset⟩ = .ok (statement, later) := by
  rcases read_split hstatements with
    ⟨hnil, -⟩ | ⟨place, before, hcode, hbefore, hread, hplace⟩ | ⟨hnil, -⟩
  · simp at hnil
  · obtain ⟨hoffset, later, hfound⟩ := statement_of_cons hplace
    rw [hoffset] at hbefore hread
    have hplace : place.skipBlank = ⟨place.skipBlank.rest, offset⟩ := by rw [← hoffset]
    exact ⟨before, _, hcode, hbefore, hread, later, hplace ▸ hfound⟩
  · cases hnil

end Script

end SequenceChart
