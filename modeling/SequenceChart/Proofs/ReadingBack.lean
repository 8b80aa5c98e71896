import SequenceChart.Proofs.Operands
import SequenceChart.Proofs.Scripts

/-!
# Reading back

The script of a printed diagram consists of its statements, up to blanks around texts that are
trimmed when a statement is carried out.
-/

namespace SequenceChart

/-- The statement without blanks around its text. -/
def Statement.tidy : Statement → Statement
  | note placement first second text => note placement first second (trimmed text.toList)
  | opening kind label => opening kind (trimmed label.toList)
  | divider kind label => divider kind (trimmed label.toList)
  | message source target kind edge text => message source target kind edge (trimmed text.toList)
  | other => other

namespace Reading

/-- A statement with the blanks behind it. -/
def line : Reading Statement := do
  let found ← statement
  skipIndent
  return found

variable {word text right pad rest tail : List Char} {found : Statement}

theorem followsKeyword_spacing (hpad : Spacing pad) (hne : pad ≠ []) :
    followsKeyword (pad ++ rest) = true := by
  obtain ⟨char, pad, rfl⟩ := List.exists_cons_of_ne_nil hne
  simp [followsKeyword, hpad char (List.mem_cons_self ..)]

theorem followsKeyword_detached (hpad : Spacing pad) (hdetached : Detached word pad tail)
    (hword : ∀ char ∈ word, char ∉ marks) : followsKeyword (pad ++ tail) = true := by
  by_cases hne : pad = []
  · subst hne
    rcases hdetached.ends with rfl | ⟨rest, rfl⟩ | ⟨rest, rfl⟩ | hcomment
    · rfl
    · rfl
    · rfl
    · exact absurd hcomment (hdetached.word rfl hword)
  · exact followsKeyword_spacing hpad hne

theorem followsKeyword_text {title : String} (hprinted : PrintedText title text) :
    followsKeyword (text ++ rest) = true := by
  obtain ⟨hbefore, -, -⟩ := hprinted
  rename_i before after
  simp only [List.append_assoc]
  cases before with
  | nil => rfl
  | cons blank before => exact followsKeyword_spacing hbefore (by simp)

theorem followsKeyword_name {name : String} (hprinted : PrintedName name text) :
    followsKeyword (text ++ rest) = true := by
  obtain ⟨hbefore, hne, -⟩ := hprinted
  rw [List.append_assoc]
  exact followsKeyword_spacing hbefore hne

theorem followsKeyword_label {label : String} (hprinted : PrintedLabel label text)
    (hpad : Spacing pad) (hdetached : Detached (word ++ text) pad tail)
    (hword : ∀ char ∈ word, char ∉ marks) : followsKeyword (text ++ (pad ++ tail)) = true := by
  cases hprinted with
  | empty =>
      rw [List.append_nil] at hdetached
      rw [List.nil_append]
      exact followsKeyword_detached hpad hdetached hword
  | spaced hbefore hne _ =>
      rw [List.append_assoc]
      exact followsKeyword_spacing hbefore hne

theorem statement_yields {keyword : Keyword} (hword : Spells keyword.word word)
    (hfollows : followsKeyword (right ++ rest) = true)
    (hoperands : Yields (operands keyword) right rest found) :
    Yields statement (word ++ right) rest found :=
  (keyword?_yields hword hfollows).bind hoperands

theorem line_yields_of_operands (keyword : Keyword) (hword : Spells keyword.word word)
    (hfollows : followsKeyword (text ++ (pad ++ tail)) = true)
    (hoperands : Yields (operands keyword) (text ++ pad) tail found) (htail : Unindented tail) :
    Yields line (word ++ text ++ pad) tail found := by
  rw [← List.append_assoc] at hfollows
  rw [List.append_assoc]
  exact (statement_yields hword hfollows hoperands).bind_end
    ((skipIndent_yields Spacing.nil htail).bind_nil (yields_pure found tail))

theorem line_yields_bare (keyword : Keyword) (hword : Spells keyword.word word)
    (hoperands : Yields (operands keyword) [] (pad ++ tail) found) (hpad : Spacing pad)
    (hdetached : Detached word pad tail) : Yields line (word ++ pad) tail found := by
  have hfollows := followsKeyword_detached hpad hdetached fun _ =>
    hword.not_mem_marks keyword.lettered
  have hstatement : Yields statement (word ++ []) (pad ++ tail) found :=
    statement_yields hword hfollows hoperands
  rw [List.append_nil] at hstatement
  exact hstatement.bind
    ((skipIndent_yields hpad hdetached.unindented).bind_end (yields_pure found tail))

theorem isIndent_mem_marks {char : Char} (hchar : isIndent char = true) : char ∈ marks := by
  simp only [isIndent, Bool.or_eq_true, beq_iff_eq] at hchar
  rcases hchar with (rfl | rfl) | rfl <;> decide

/-- No keyword stands where a name starts, if the name ends where no keyword goes on. -/
theorem PlainName.keyword?_yields {name : String} (hname : PlainName name) {beyond : List Char}
    (hbeyond : ∀ char, beyond.head? = some char → char ∈ marks) (offset : Nat) :
    keyword? ⟨name.toList ++ beyond, offset⟩ = .ok (none, ⟨name.toList ++ beyond, offset⟩) := by
  refine keyword?_eq_none offset fun keyword spelled rest htext hspells => ?_
  rcases List.append_eq_append_iff.mp htext with ⟨more, hspelled, hmore⟩ | ⟨more, hfirst, rfl⟩
  · cases more with
    | nil =>
        rw [List.append_nil] at hspelled
        obtain ⟨char, more, hnil, -⟩ := hname.noKeyword keyword spelled [] (by simp [hspelled])
          hspells
        exact nomatch hnil
    | cons char more =>
        have hmark := hbeyond char (by rw [hmore]; rfl)
        exact absurd hmark (hspells.not_mem_marks keyword.lettered (by simp [hspelled]))
  · obtain ⟨char, rest, rfl, hindent, hbrace⟩ :=
      hname.noKeyword keyword spelled more hfirst hspells
    have hplain := hname.plain char (by simp [hfirst])
    simp only [List.mem_cons, List.not_mem_nil, or_false, not_or] at hplain
    simp [followsKeyword, hindent, hbrace, hplain]

/-- A name before an arrow is not taken for a keyword. -/
theorem PlainName.no_keyword_before_arrow {name : String} {before : List Char}
    (hname : PlainName name) (hbefore : Spacing before) (kind : MessageKind) (rest : List Char) :
    Yields keyword? [] (name.toList ++ (before ++ (kind.arrow.toList ++ rest))) none := by
  intro offset
  refine PlainName.keyword?_yields hname ?_ offset
  intro char hhead
  obtain ⟨second, more, harrow, -⟩ := kind.arrow_toList
  rw [harrow] at hhead
  cases before with
  | nil =>
      obtain rfl := Option.some.inj hhead
      simp [marks]
  | cons blank before =>
      obtain rfl := Option.some.inj hhead
      exact isIndent_mem_marks (hbefore blank (List.mem_cons_self ..))

theorem line_yields {printed : Statement} (hprinted : Printed printed text) (hpad : Spacing pad)
    (hdetached : Detached text pad tail) :
    ∃ found, Yields line (text ++ pad) tail found ∧ found.tidy = printed := by
  have hapart := hdetached.toApart
  have htail := hapart.unindented
  cases hprinted with
  | autonumber hword =>
      exact ⟨_, line_yields_bare .autonumber hword (yields_pure _ _) hpad hdetached, rfl⟩
  | closing hword =>
      exact ⟨_, line_yields_bare .closing hword (yields_pure _ _) hpad hdetached, rfl⟩
  | declare hword hname hid hrest =>
      rename_i role id label word name rest
      rw [List.append_assoc word] at hapart ⊢
      have hfollows : followsKeyword (name ++ rest ++ (pad ++ tail)) = true := by
        rw [List.append_assoc]
        exact followsKeyword_name hname
      have hoperands : Yields (declaration role) _ _ _ :=
        declaration_yields hname hid hrest hpad hapart.suffix
      exact ⟨_, line_yields_of_operands (.declare role) hword hfollows hoperands htail, rfl⟩
  | title hword hrest =>
      have hoperands := title_yields hrest hpad hapart.suffix
      exact ⟨_, line_yields_of_operands .title hword (followsKeyword_text hrest) hoperands htail,
        rfl⟩
  | accTitle hword hrest =>
      have hoperands := accTitle_yields hrest hpad hapart.suffix
      exact ⟨_, line_yields_of_operands .accTitle hword (followsKeyword_text hrest) hoperands htail,
        rfl⟩
  | accDescription hword hrest =>
      have hoperands := accDescription_yields hrest hpad hapart.suffix
      exact ⟨_, line_yields_of_operands .accDescription hword (followsKeyword_text hrest) hoperands
        htail, rfl⟩
  | activate hword hname =>
      have hoperands : Yields (operands .activate) _ tail _ :=
        (actorToEnd_yields hname hpad hapart.suffix).bind_end (yields_pure _ tail)
      exact ⟨_, line_yields_of_operands .activate hword (followsKeyword_name hname) hoperands htail,
        rfl⟩
  | deactivate hword hname =>
      have hoperands : Yields (operands .deactivate) _ tail _ :=
        (actorToEnd_yields hname hpad hapart.suffix).bind_end (yields_pure _ tail)
      exact ⟨_, line_yields_of_operands .deactivate hword (followsKeyword_name hname) hoperands
        htail, rfl⟩
  | note hword hbefore hbefore_ne hplace hafter hafter_ne hactors hrest =>
      rename_i placement first second text word before place after actors rest
      obtain ⟨raw, hraw, htrim⟩ :=
        note_yields hbefore hplace hafter hafter_ne hactors hrest hpad hapart.suffix
      have hfollows : followsKeyword (before ++ place ++ after ++ actors ++ rest ++ (pad ++ tail)) =
          true := by
        simp only [List.append_assoc]
        exact followsKeyword_spacing hbefore hbefore_ne
      have hline := line_yields_of_operands .note hword hfollows hraw htail
      refine ⟨.note placement first second raw, ?_, by rw [Statement.tidy, htrim]⟩
      simpa only [List.append_assoc] using hline
  | opening hword hrest =>
      rename_i kind label word rest
      obtain ⟨raw, hraw, htrim⟩ := label_yields hrest hpad hapart.suffix
      have hfollows := followsKeyword_label hrest hpad hdetached fun _ =>
        hword.not_mem_marks (Keyword.opening kind).lettered
      exact ⟨.opening kind raw, line_yields_of_operands (.opening kind) hword hfollows
        (hraw.bind_end (yields_pure _ tail)) htail, by rw [Statement.tidy, htrim]⟩
  | divider hword hrest =>
      rename_i kind label word rest
      obtain ⟨raw, hraw, htrim⟩ := label_yields hrest hpad hapart.suffix
      have hfollows := followsKeyword_label hrest hpad hdetached fun _ =>
        hword.not_mem_marks (Keyword.divider kind).lettered
      exact ⟨.divider kind raw, line_yields_of_operands (.divider kind) hword hfollows
        (hraw.bind_end (yields_pure _ tail)) htail, by rw [Statement.tidy, htrim]⟩
  | message hsource hbeforeArrow hafterArrow hafterSign htarget hrest =>
      rename_i source target kind edge text beforeArrow afterArrow afterSign rest
      rw [List.append_assoc] at hapart
      obtain ⟨raw, hraw, htrim⟩ := message_yields kind edge hsource hbeforeArrow hafterArrow
        hafterSign htarget hrest hpad hapart.suffix
      have hnone := PlainName.no_keyword_before_arrow hsource hbeforeArrow kind
        (afterArrow ++ (signOf edge ++ (afterSign ++ (target.toList ++ (rest ++ (pad ++ tail))))))
      simp only [← List.append_assoc] at hnone
      have hstatement : Yields statement _ tail _ := hnone.bind_nil hraw
      refine ⟨.message source target kind edge raw, ?_, by rw [Statement.tidy, htrim]⟩
      exact hstatement.bind_end
        ((skipIndent_yields Spacing.nil htail).bind_nil (yields_pure _ tail))

theorem statement_of_line {cursor stop : Cursor} (hline : line cursor = .ok (found, stop)) :
    ∃ later, statement cursor = .ok (found, later) ∧ later.skipIndent = stop := by
  obtain ⟨value, later, hstatement, hrest⟩ := bind_eq_ok.mp hline
  obtain ⟨_, between, hskip, hpure⟩ := bind_eq_ok.mp hrest
  obtain ⟨rfl, rfl⟩ := Prod.mk.inj (Except.ok.inj hpure)
  exact ⟨later, hstatement, (Prod.mk.inj (Except.ok.inj hskip)).2⟩

end Reading

theorem blankLength_comment {text : List Char} (hbreak : '\n' ∉ text) (rest : List Char) :
    blankLength true (text ++ rest) = text.length + blankLength true rest := by
  induction text with
  | nil => simp
  | cons char text ih =>
      rw [List.mem_cons, not_or] at hbreak
      have hstep := blankLength_true_cons (Ne.symm hbreak.1) (text ++ rest)
      rw [List.cons_append, hstep, ih hbreak.2, List.length_cons]
      omega

theorem blankLength_of_startsComment {text : List Char} (hstarts : startsComment text) :
    blankLength false text = blankLength true text := by
  rcases hstarts with ⟨more, rfl⟩ | ⟨more, rfl⟩ <;> simp [blankLength, isIndent]

theorem Remark.blankLength {text : List Char} (hremark : Remark text) (rest : List Char) :
    blankLength false (text ++ rest) = text.length + blankLength true rest := by
  have hstarts : startsComment (text ++ rest) :=
    hremark.starts.imp (·.trans (List.prefix_append ..)) (·.trans (List.prefix_append ..))
  rw [blankLength_of_startsComment hstarts, blankLength_comment hremark.noBreak]

theorem Gap.blankLength {gap : List Char} (hgap : Gap gap) (rest : List Char) :
    blankLength false (gap ++ rest) = gap.length + blankLength false rest := by
  induction hgap with
  | nil => simp
  | @blank char gap hchar hgap ih =>
      have hstep : SequenceChart.blankLength false (char :: (gap ++ rest)) =
          1 + SequenceChart.blankLength false (gap ++ rest) := by
        by_cases hbreak : char = '\n'
        · rw [hbreak, SequenceChart.blankLength]
        · rw [SequenceChart.blankLength]
          · rcases hchar with hindent | hchar | hsemicolon
            · simp [hindent]
            · exact absurd hchar hbreak
            · simp [hsemicolon]
          · exact hbreak
      rw [List.cons_append, hstep, ih, List.length_cons]
      omega
  | @remark text gap hremark hgap ih =>
      rw [List.append_assoc, hremark.blankLength, List.cons_append, SequenceChart.blankLength, ih]
      simp only [List.length_append, List.length_cons]
      omega

theorem Gap.skipBlank {gap rest : List Char} (hgap : Gap gap)
    (hrest : SequenceChart.blankLength false rest = 0) (offset : Nat) :
    (Cursor.mk (gap ++ rest) offset).skipBlank = ⟨rest, offset + byteLength gap⟩ := by
  rw [Cursor.skipBlank, hgap.blankLength, hrest, Nat.add_zero, Cursor.skip_length]

theorem blankLength_eq_zero {char : Char} {rest : List Char} (hindent : isIndent char = false)
    (hends : endsStatement (char :: rest) = false) : blankLength false (char :: rest) = 0 := by
  have hmarks := hends
  rw [endsStatement_cons] at hmarks
  simp only [Bool.or_eq_false_iff, beq_eq_false_iff_ne] at hmarks
  rw [blankLength_false_cons hmarks.1.1.1]
  simp [hindent, hmarks.1.1.2, hends]

theorem Printed.starts {statement : Statement} {text : List Char}
    (hprinted : Printed statement text) :
    (∃ (keyword : Keyword) (word more : List Char), text = word ++ more ∧
        Spells keyword.word word) ∨
      ∃ (name : String) (pad : List Char) (kind : MessageKind) (more : List Char),
        text = name.toList ++ pad ++ (kind.arrow.toList ++ more) ∧ PlainName name ∧
          Spacing pad := by
  cases hprinted with
  | declare hword => exact .inl ⟨.declare _, _, _, List.append_assoc .., hword⟩
  | autonumber hword => exact .inl ⟨.autonumber, _, _, (List.append_nil _).symm, hword⟩
  | title hword => exact .inl ⟨.title, _, _, rfl, hword⟩
  | accTitle hword => exact .inl ⟨.accTitle, _, _, rfl, hword⟩
  | accDescription hword => exact .inl ⟨.accDescription, _, _, rfl, hword⟩
  | activate hword => exact .inl ⟨.activate, _, _, rfl, hword⟩
  | deactivate hword => exact .inl ⟨.deactivate, _, _, rfl, hword⟩
  | note hword =>
      exact .inl ⟨.note, _, _, by simp only [List.append_assoc]; rfl, hword⟩
  | opening hword => exact .inl ⟨.opening _, _, _, rfl, hword⟩
  | divider hword => exact .inl ⟨.divider _, _, _, rfl, hword⟩
  | closing hword => exact .inl ⟨.closing, _, _, (List.append_nil _).symm, hword⟩
  | message hsource hbeforeArrow =>
      exact .inr ⟨_, _, _, _, by simp only [List.append_assoc]; rfl, hsource, hbeforeArrow⟩

theorem Spells.blankLength {word : String} {text : List Char} (hspells : Spells word text)
    (hword : word ≠ "") (hlettered : Lettered word) (rest : List Char) :
    text ≠ [] ∧ blankLength false (text ++ rest) = 0 := by
  refine ⟨hspells.ne_nil hword, ?_⟩
  have hclear := hspells.clear hlettered rest
  obtain ⟨char, more, rfl⟩ := List.exists_cons_of_ne_nil (hspells.ne_nil hword)
  exact blankLength_eq_zero (hspells.unindented hword hlettered [] char rfl)
    (hclear [] char more rfl)

theorem Printed.blankLength {statement : Statement} {text : List Char}
    (hprinted : Printed statement text) (rest : List Char) :
    text ≠ [] ∧ blankLength false (text ++ rest) = 0 := by
  rcases hprinted.starts with ⟨keyword, word, more, rfl, hword⟩ |
    ⟨name, pad, kind, more, rfl, hname, hpad⟩
  · obtain ⟨hne, hblank⟩ := hword.blankLength
      (by simpa using keyword.word_ne_nil) keyword.lettered (more ++ rest)
    exact ⟨by simp [hne], by rwa [List.append_assoc]⟩
  · obtain ⟨second, others, harrow, -⟩ := kind.arrow_toList
    have hclear : Clear Reading.endsActor (name.toList ++ pad)
        (kind.arrow.toList ++ more ++ rest) :=
      hname.clear hpad (fun _ => by rw [harrow]; simp)
    have hne : name.toList ≠ [] := by simpa using hname.ne_empty
    refine ⟨by simp [hne], ?_⟩
    obtain ⟨char, letters, hletters⟩ := List.exists_cons_of_ne_nil hne
    have hends := Reading.endsStatement_of_endsActor
      (hclear [] char (letters ++ pad) (by rw [hletters]; rfl))
    have hzero := blankLength_eq_zero (hname.unindented [] char (by rw [hletters]; rfl)) hends
    simpa [hletters] using hzero

theorem readStatements_printed {statements : List Statement} {text : List Char}
    (hprinted : PrintedTail statements text) (offset : Nat) :
    ∃ items stop, Script.readStatements ⟨text, offset⟩ = (items, .complete stop) ∧
      items.map (fun item => item.2.tidy) = statements := by
  induction hprinted generalizing offset with
  | @done gap remark hgap hremark =>
      have hlength : blankLength false remark = remark.length := by
        rcases hremark with rfl | hremark
        · rfl
        · have := hremark.blankLength []
          rwa [List.append_nil] at this
      have hblank : (Cursor.mk (gap ++ remark) offset).skipBlank.rest = [] := by
        simp [Cursor.skipBlank, Cursor.skip, hgap.blankLength, hlength]
      exact ⟨[], _, Script.readStatements_of_blank hblank, rfl⟩
  | @cons statement later gap text pad tail hgap htext hpad hdetached htail ih =>
      obtain ⟨hne, hzero⟩ := htext.blankLength (pad ++ tail)
      have hskip : (Cursor.mk (gap ++ text ++ pad ++ tail) offset).skipBlank =
          ⟨text ++ pad ++ tail, offset + byteLength gap⟩ := by
        simp only [List.append_assoc]
        exact hgap.skipBlank hzero offset
      obtain ⟨found, hline, htidy⟩ := Reading.line_yields htext hpad hdetached
      obtain ⟨afterStatement, hread, hstop⟩ :=
        Reading.statement_of_line (hline (offset + byteLength gap))
      rw [← hskip] at hread
      obtain ⟨items, stop, hitems, hstatements⟩ :=
        ih (offset + byteLength gap + byteLength (text ++ pad))
      have hrest : (Cursor.mk (gap ++ text ++ pad ++ tail) offset).skipBlank.rest ≠ [] := by
        rw [hskip]
        simp [hne]
      rw [Script.readStatements_of_ok hrest hread, hstop, if_pos hdetached.endsStatement, hitems]
      exact ⟨_, stop, rfl, by rw [List.map_cons, hstatements, htidy]⟩

/-- The script of a printed diagram has its statements, and ends with the text. -/
theorem Script.read_printed {statements : List Statement} {text : List Char}
    (hprinted : PrintedDiagram statements text) :
    ∃ stop, (Script.read text).ending = .complete stop ∧
      (Script.read text).statements.map (fun item => item.2.tidy) = statements := by
  obtain ⟨hgap, hheader, hpad, hdetached, htail⟩ := hprinted
  rename_i gap header pad tail
  obtain ⟨-, hzero⟩ := hheader.blankLength (by decide) (by decide) (pad ++ tail)
  have hstart : (Cursor.ofText (gap ++ header ++ pad ++ tail)).skipBlank =
      ⟨header ++ (pad ++ tail), 0 + byteLength gap⟩ := by
    simp only [List.append_assoc]
    exact hgap.skipBlank hzero 0
  have hword := Cursor.skipWord?_append hheader
    (Reading.followsKeyword_detached hpad hdetached fun _ => hheader.not_mem_marks (by decide))
    (0 + byteLength gap)
  have hindent := Reading.takeWhile_isIndent hpad hdetached.unindented
  obtain ⟨items, stop, hitems, hstatements⟩ := readStatements_printed htail
    (0 + byteLength gap + byteLength header + byteLength pad)
  have hread : Script.read (gap ++ header ++ pad ++ tail) =
      ⟨0 + byteLength gap, items, .complete stop⟩ := by
    simp only [Script.read, hstart, hword, Cursor.skipIndent, hindent, Cursor.skip_length,
      hdetached.endsStatement, if_true, hitems]
  rw [hread]
  exact ⟨stop, rfl, hstatements⟩

end SequenceChart
