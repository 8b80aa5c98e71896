import SequenceChart.Proofs.Lookahead
import SequenceChart.Proofs.Printing

/-!
# Reading printed parts

A reading takes a printed part and finds its value, whatever is printed behind it. Readings that do
so one after the other do so together.
-/

namespace SequenceChart

/-- Nowhere in the text does `stops` hold, the text being followed by `rest`. -/
def Clear (stops : List Char → Bool) (text rest : List Char) : Prop :=
  ∀ before char after, text = before ++ char :: after → stops (char :: after ++ rest) = false

theorem takeUntil_append {stops : List Char → Bool} {text rest : List Char}
    (hclear : Clear stops text rest) (hstops : stops rest = true) :
    takeUntil stops (text ++ rest) = text := by
  induction text with
  | nil =>
      cases rest with
      | nil => rfl
      | cons char rest => simp [takeUntil, hstops]
  | cons char text ih =>
      have hhead : stops (char :: (text ++ rest)) = false := hclear [] char text rfl
      rw [List.cons_append, takeUntil, hhead, if_neg Bool.false_ne_true, ih]
      intro before other after htext
      exact hclear (char :: before) other after (by rw [htext]; rfl)

theorem Spacing.not_mem {pad : List Char} (hpad : Spacing pad) {char : Char}
    (hchar : isIndent char = false) : char ∉ pad := by
  intro hmem
  rw [hpad char hmem] at hchar
  cases hchar

/-- A pair of characters that does not stand in a text does not start in it either, even if blanks
and more text follow. -/
theorem not_pair_prefix {left right : Char} {text pad tail before after : List Char} {char : Char}
    (hleft : isIndent left = false) (hright : isIndent right = false)
    (hnot : ¬[left, right] <:+: text) (hpad : Spacing pad)
    (hcross : text.getLast? = some left → pad = [] → tail.head? ≠ some right)
    (htext : text ++ pad = before ++ char :: after) :
    ¬[left, right] <+: char :: after ++ tail := by
  rw [List.cons_append, List.cons_prefix_cons]
  rintro ⟨rfl, hsecond⟩
  have hleft_pad := hpad.not_mem hleft
  have hright_pad := hpad.not_mem hright
  rcases List.append_eq_append_iff.mp htext with ⟨more, rfl, rfl⟩ | ⟨more, rfl, hmore⟩
  · simp at hleft_pad
  · cases more with
    | nil =>
        rw [List.nil_append] at hmore
        rw [← hmore] at hleft_pad
        simp at hleft_pad
    | cons first more =>
        obtain ⟨rfl, rfl⟩ := List.cons.inj hmore
        cases more with
        | cons second more =>
            obtain ⟨rfl, -⟩ := List.cons_prefix_cons.mp hsecond
            exact hnot ⟨before, more, by simp⟩
        | nil =>
            cases pad with
            | cons blank pad =>
                obtain ⟨rfl, -⟩ := List.cons_prefix_cons.mp hsecond
                simp at hright_pad
            | nil =>
                obtain ⟨rest, rfl⟩ := hsecond
                exact hcross (by simp) rfl rfl

theorem endsStatement_eq_false {char : Char} {rest : List Char}
    (hplain : char ∉ ['\n', ';', '#']) (hpercents : ¬['%', '%'] <+: char :: rest) :
    endsStatement (char :: rest) = false := by
  simp only [List.mem_cons, List.not_mem_nil, or_false, not_or] at hplain
  have hpair : ¬(char = '%' ∧ rest.head? = some '%') := by
    rintro ⟨rfl, hhead⟩
    obtain ⟨more, rfl⟩ := List.head?_eq_some_iff.mp hhead
    exact hpercents ⟨more, rfl⟩
  rw [endsStatement_cons]
  simpa [hplain] using hpair

theorem endsActor_eq_false {char : Char} {rest : List Char}
    (hplain : char ∉ ['\n', ';', ',', ':', '+', '>', '#'])
    (hpercents : ¬['%', '%'] <+: char :: rest)
    (harrow : ∀ second ∈ ['-', '>', 'x'], ¬['-', second] <+: char :: rest) :
    Reading.endsActor (char :: rest) = false := by
  simp only [List.mem_cons, List.not_mem_nil, or_false, not_or] at hplain
  have hstatement : endsStatement (char :: rest) = false :=
    endsStatement_eq_false (by simp [hplain]) hpercents
  have harrows : Reading.startsArrow (char :: rest) = false := by
    rw [Reading.startsArrow_cons]
    by_cases hchar : char = '-'
    · have hsecond : ∀ second ∈ ['-', '>', 'x'], rest.head? ≠ some second := by
        intro second hmem hhead
        obtain ⟨more, rfl⟩ := List.head?_eq_some_iff.mp hhead
        exact harrow second hmem ⟨more, by rw [hchar]; rfl⟩
      simp only [List.mem_cons, List.not_mem_nil, or_false, forall_eq_or_imp, forall_eq] at hsecond
      simp [hsecond]
    · simp [hchar]
  rw [Reading.endsActor_cons]
  simp [hplain, hstatement, harrows]

theorem Spacing.isBlank {pad : List Char} (hpad : Spacing pad) :
    ∀ char ∈ pad, isBlank char = true := by
  intro char hchar
  have hindent := hpad char hchar
  simp only [isIndent, Bool.or_eq_true, beq_iff_eq] at hindent
  rcases hindent with (rfl | rfl) | rfl <;> rfl

theorem Spacing.not_mem_marks {text pad marks : List Char} (hpad : Spacing pad)
    (hmarks : ∀ mark ∈ marks, isIndent mark = false) (htext : ∀ char ∈ text, char ∉ marks)
    {before after : List Char} {char : Char} (hcut : text ++ pad = before ++ char :: after) :
    char ∉ marks := by
  have hmem : char ∈ text ++ pad := by
    rw [hcut]
    simp
  rcases List.mem_append.mp hmem with hchar | hchar
  · exact htext char hchar
  · intro hmark
    exact absurd (hpad char hchar) (by simp [hmarks char hmark])

section Apart

variable {text pad tail : List Char}

theorem Apart.suffix {left : List Char} (hapart : Apart (left ++ text) pad tail) :
    Apart text pad tail := by
  refine ⟨hapart.ends, fun hpad hlast => hapart.percent hpad ?_⟩
  rw [List.getLast?_append, hlast]
  rfl

theorem Apart.endsStatement (hapart : Apart text pad tail) : endsStatement tail = true := by
  rcases hapart.ends with rfl | ⟨rest, rfl⟩ | ⟨rest, rfl⟩ | ⟨rest, rfl⟩ | ⟨rest, rfl⟩ <;> rfl

theorem Apart.head?_ne_colon (hapart : Apart text pad tail) : tail.head? ≠ some ':' := by
  rcases hapart.ends with rfl | ⟨rest, rfl⟩ | ⟨rest, rfl⟩ | ⟨rest, rfl⟩ | ⟨rest, rfl⟩ <;> simp

end Apart

theorem Clear.append {stops : List Char → Bool} {left right rest : List Char}
    (hleft : Clear stops left (right ++ rest)) (hright : Clear stops right rest) :
    Clear stops (left ++ right) rest := by
  intro before char after hcut
  rcases List.append_eq_append_iff.mp hcut with ⟨more, rfl, hmore⟩ | ⟨more, rfl, hmore⟩
  · exact hright more char after hmore
  · cases more with
    | nil => exact hright [] char after hmore.symm
    | cons first more =>
        simp only [List.cons_append, List.cons.injEq] at hmore
        obtain ⟨rfl, rfl⟩ := hmore
        have hhead := hleft before char more rfl
        rwa [← List.append_assoc] at hhead

theorem Spacing.clear {pad : List Char} (hpad : Spacing pad) (rest : List Char) :
    Clear endsStatement pad rest := by
  intro before char after hcut
  have hchar := hpad char (by rw [hcut]; simp)
  refine endsStatement_eq_false (fun hmark => ?_) fun hprefix => ?_
  · simp only [List.mem_cons, List.not_mem_nil, or_false] at hmark
    rcases hmark with rfl | rfl | rfl <;> exact nomatch hchar
  · rw [← (List.cons_prefix_cons.mp hprefix).1] at hchar
    exact nomatch hchar

theorem Spells.clear {word : String} {text : List Char} (hspells : Spells word text)
    (hword : Lettered word) (rest : List Char) : Clear endsStatement text rest := by
  rintro before char after rfl
  have hmark := hspells.not_mem_marks hword
    (List.mem_append_right before (List.mem_cons_self (l := after)))
  simp only [marks, List.mem_cons, List.not_mem_nil, or_false, not_or] at hmark
  refine endsStatement_eq_false (by simp [hmark]) fun hprefix => ?_
  have hpercent := (List.cons_prefix_cons.mp hprefix).1
  simp [← hpercent] at hmark

theorem PlainText.clear {text : String} (htext : PlainText text) {pad tail : List Char}
    (hpad : Spacing pad)
    (hpercent : pad = [] → text.toList.getLast? = some '%' → tail.head? ≠ some '%') :
    Clear endsStatement (text.toList ++ pad) tail := by
  intro before char after hcut
  refine endsStatement_eq_false (hpad.not_mem_marks (by simp [isIndent]) htext.plain hcut) ?_
  exact not_pair_prefix rfl rfl htext.noPercents hpad
    (fun hlast hempty => hpercent hempty hlast) hcut

theorem PlainName.plainText {name : String} (hname : PlainName name) : PlainText name where
  trim_eq := hname.trim_eq
  plain char hchar := by
    have := hname.plain char hchar
    simp_all
  noPercents := hname.noPercents

theorem PlainName.clear {name : String} (hname : PlainName name) {pad tail : List Char}
    (hpad : Spacing pad)
    (hpercent : pad = [] → name.toList.getLast? = some '%' → tail.head? ≠ some '%') :
    Clear Reading.endsActor (name.toList ++ pad) tail := by
  intro before char after hcut
  refine endsActor_eq_false (hpad.not_mem_marks (by simp [isIndent]) hname.plain hcut) ?_ ?_
  · exact not_pair_prefix rfl rfl hname.noPercents hpad
      (fun hlast hempty => hpercent hempty hlast) hcut
  · intro second hsecond
    refine not_pair_prefix rfl ?_ (hname.noArrow second hsecond) hpad
      (fun hlast => absurd hlast hname.getLast?_ne) hcut
    simp only [List.mem_cons, List.not_mem_nil, or_false] at hsecond
    rcases hsecond with rfl | rfl | rfl <;> rfl

/-! ### The parts of a reading

Where a part ends is told by the first character behind it: it is no blank, or no mark that would be
read as well. The readings ask for that of the text behind, and each printed part tells what it
starts with. -/

/-- The text does not start with a blank within a line. -/
def Unindented (text : List Char) : Prop :=
  ∀ char, text.head? = some char → isIndent char = false

theorem unindented_cons {char : Char} (hchar : isIndent char = false) (rest : List Char) :
    Unindented (char :: rest) := by
  rintro other ⟨⟩
  exact hchar

theorem Spells.unindented {word : String} {text : List Char} (hspells : Spells word text)
    (hword : word ≠ "") (hlettered : Lettered word) (rest : List Char) :
    Unindented (text ++ rest) := by
  obtain ⟨first, more, rfl⟩ := List.exists_cons_of_ne_nil (hspells.ne_nil hword)
  rintro char ⟨⟩
  have hmark := hspells.not_mem_marks hlettered (List.mem_cons_self ..)
  simp only [marks, List.mem_cons, List.not_mem_nil, or_false, not_or] at hmark
  simp [isIndent, hmark]

theorem PrintedPlacement.unindented {placed : NotePlacement} {place : List Char}
    (hplace : PrintedPlacement placed place) (rest : List Char) :
    Unindented (place ++ rest) := by
  cases hplace with
  | leftOf hside _ _ _ | rightOf hside _ _ _ =>
      rw [List.append_assoc, List.append_assoc]
      exact hside.unindented (by decide) (by decide) _
  | across hword => exact hword.unindented (by decide) (by decide) _

theorem PlainName.isBlank_head? {name : String} (hname : PlainName name) (rest : List Char) :
    ∃ char, (name.toList ++ rest).head? = some char ∧ char ∈ name.toList ∧
      isBlank char = false := by
  have hne : name.toList ≠ [] := by simpa using hname.ne_empty
  obtain ⟨first, more, hfirst⟩ := List.exists_cons_of_ne_nil hne
  refine ⟨first, by rw [hfirst]; rfl, by simp [hfirst], @head?_trim name.toList first ?_⟩
  rw [hname.trim_eq, hfirst]
  rfl

theorem isIndent_of_not_blank {char : Char} (hblank : isBlank char = false) :
    isIndent char = false := by
  by_cases hindent : isIndent char = true
  · have hspacing : Spacing [char] := by simpa [Spacing] using hindent
    rw [hspacing.isBlank char (by simp)] at hblank
    exact nomatch hblank
  · simpa using hindent

theorem PlainName.unindented {name : String} (hname : PlainName name) (rest : List Char) :
    Unindented (name.toList ++ rest) := by
  intro char hhead
  obtain ⟨first, hfirst, -, hblank⟩ := hname.isBlank_head? rest
  rw [hhead] at hfirst
  rw [Option.some.inj hfirst]
  exact isIndent_of_not_blank hblank

theorem PlainName.head?_append_ne {name : String} (hname : PlainName name) {mark : Char}
    (hmark : mark ∈ ['\n', ';', ',', ':', '+', '>', '#', '-']) (rest : List Char) :
    (name.toList ++ rest).head? ≠ some mark := by
  have hne : name.toList ≠ [] := by simpa using hname.ne_empty
  have hhyphen := hname.head?_ne
  have hplain := hname.plain
  obtain ⟨first, more, hfirst⟩ := List.exists_cons_of_ne_nil hne
  rw [hfirst] at hhyphen hplain ⊢
  rintro ⟨⟩
  have hmark' := hplain mark (List.mem_cons_self ..)
  simp_all

theorem Spacing.head?_append_ne {pad : List Char} (hpad : Spacing pad) {mark : Char}
    (hmark : isIndent mark = false) {rest : List Char} (hrest : rest.head? ≠ some mark) :
    (pad ++ rest).head? ≠ some mark := by
  cases pad with
  | nil => exact hrest
  | cons blank pad =>
      rintro ⟨⟩
      exact absurd (hpad mark (List.mem_cons_self ..)) (by simp [hmark])

theorem Apart.unindented {text pad tail : List Char} (hapart : Apart text pad tail) :
    Unindented tail := by
  rcases hapart.ends with rfl | ⟨rest, rfl⟩ | ⟨rest, rfl⟩ | ⟨rest, rfl⟩ | ⟨rest, rfl⟩ <;>
    rintro char ⟨⟩ <;> rfl

theorem MessageKind.arrow_toList (kind : MessageKind) : ∃ second more,
    kind.arrow.toList = '-' :: second :: more ∧ second ∈ ['-', '>', 'x'] := by
  cases kind with
  | solid => exact ⟨'>', [], rfl, by simp⟩
  | dotted => exact ⟨'-', ['>'], rfl, by simp⟩
  | solidOpen => exact ⟨'>', ['>'], rfl, by simp⟩
  | dottedOpen => exact ⟨'-', ['>', '>'], rfl, by simp⟩
  | solidCross => exact ⟨'x', [], rfl, by simp⟩
  | dottedCross => exact ⟨'-', ['x'], rfl, by simp⟩

namespace Reading

variable {α β : Type} {reading : Reading α} {text left right rest : List Char} {value : α}

/-- Before `rest` the reading takes `text` and finds `value`. -/
def Yields (reading : Reading α) (text rest : List Char) (value : α) : Prop :=
  ∀ offset, reading ⟨text ++ rest, offset⟩ = .ok (value, ⟨rest, offset + byteLength text⟩)

theorem yields_pure (value : α) (rest : List Char) : Yields (pure value) [] rest value :=
  fun _ => rfl

theorem Yields.bind {next : α → Reading β} {result : β}
    (hreading : Yields reading left (right ++ rest) value)
    (hnext : Yields (next value) right rest result) :
    Yields (reading >>= next) (left ++ right) rest result := by
  intro offset
  refine bind_eq_ok.mpr ⟨value, ⟨right ++ rest, offset + byteLength left⟩, ?_, ?_⟩
  · rw [List.append_assoc]
    exact hreading offset
  · rw [byteLength_append, ← Nat.add_assoc]
    exact hnext _

theorem Yields.bind_nil {next : α → Reading β} {result : β}
    (hreading : Yields reading [] (right ++ rest) value)
    (hnext : Yields (next value) right rest result) :
    Yields (reading >>= next) right rest result := by
  have hboth : Yields (reading >>= next) ([] ++ right) rest result := hreading.bind hnext
  rwa [List.nil_append] at hboth

theorem Yields.bind_end {next : α → Reading β} {result : β}
    (hreading : Yields reading left rest value) (hnext : Yields (next value) [] rest result) :
    Yields (reading >>= next) left rest result := by
  have hboth : Yields (reading >>= next) (left ++ []) rest result := Yields.bind hreading hnext
  rwa [List.append_nil] at hboth

theorem yields_of_eq (text : List Char) {other : List Char}
    (hreading : Yields reading text rest value) (htext : text = other) :
    Yields reading other rest value :=
  htext ▸ hreading

theorem yields_skip {step : Cursor → α × Cursor}
    (hstep : ∀ offset, step ⟨text ++ rest, offset⟩ =
      (value, Cursor.skip ⟨text ++ rest, offset⟩ text.length)) :
    Yields (modifyGet step) text rest value := by
  intro offset
  change Except.ok (step _) = _
  rw [hstep, Cursor.skip_length]

theorem takeWhile_isIndent {pad : List Char} (hpad : Spacing pad)
    (hrest : Unindented rest) :
    (pad ++ rest).takeWhile isIndent = pad := by
  rw [List.takeWhile_append_of_pos hpad]
  cases rest with
  | nil => simp
  | cons char rest => simp [hrest char rfl]

theorem skipIndent_yields {pad : List Char} (hpad : Spacing pad)
    (hrest : Unindented rest) :
    Yields skipIndent pad rest () := by
  refine yields_skip fun offset => ?_
  rw [Cursor.skipIndent, takeWhile_isIndent hpad hrest]

theorem textUntil_yields {stops : List Char → Bool} (hclear : Clear stops text rest)
    (hstops : stops rest = true) : Yields (textUntil stops) text rest text := by
  refine yields_skip fun offset => ?_
  dsimp only
  rw [takeUntil_append hclear hstops]

theorem eat_yields (char : Char) (rest : List Char) : Yields (eat char) [char] rest true := by
  refine yields_skip fun offset => ?_
  simp

theorem eat_yields_false {char : Char} (hrest : rest.head? ≠ some char) :
    Yields (eat char) [] rest false := by
  intro offset
  change Except.ok _ = _
  simp [hrest, byteLength]

theorem attempt_yields {step? : Cursor → Option Cursor}
    (hstep : ∀ offset, step? ⟨text ++ rest, offset⟩ = some ⟨rest, offset + byteLength text⟩) :
    Yields (attempt step?) text rest true := by
  intro offset
  change Except.ok _ = _
  simp only [hstep]

theorem attempt_yields_false {step? : Cursor → Option Cursor}
    (hstep : ∀ offset, step? ⟨rest, offset⟩ = none) : Yields (attempt step?) [] rest false := by
  intro offset
  change Except.ok _ = _
  simp [hstep, byteLength]

theorem keyword?_yields {keyword : Keyword} (hspells : Spells keyword.word text)
    (hfollows : followsKeyword rest = true) : Yields keyword? text rest (some keyword) :=
  keyword?_append hspells hfollows

theorem trim_spaced {text : String} (htrim : trim text.toList = text.toList)
    {before after : List Char} (hbefore : Spacing before) (hafter : Spacing after) :
    trimmed (before ++ text.toList ++ after) = text := by
  rw [trimmed, trim_append_blanks hafter.isBlank, trim_blanks_append hbefore.isBlank, htrim,
    String.ofList_toList]

theorem textToEnd_yields {text : String} (htext : PlainText text) {before after : List Char}
    (hbefore : Spacing before) (hafter : Spacing after) (hapart : Apart text.toList after rest) :
    Yields textToEnd (before ++ text.toList ++ after) rest (before ++ text.toList ++ after) := by
  refine textUntil_yields ?_ hapart.endsStatement
  rw [List.append_assoc]
  exact (hbefore.clear _).append (htext.clear hafter hapart.percent)

theorem actor_yields {name : String} (hname : PlainName name) {pad : List Char}
    (hpad : Spacing pad)
    (hpercent : pad = [] → name.toList.getLast? = some '%' → rest.head? ≠ some '%')
    (hrest : endsActor rest = true) (missing : Complaint) :
    Yields (actor missing) (name.toList ++ pad) rest name := by
  refine (textUntil_yields (hname.clear hpad hpercent) hrest).bind_end ?_
  have htrim : trim (name.toList ++ pad) = name.toList := by
    rw [trim_append_blanks hpad.isBlank, hname.trim_eq]
  rw [htrim, if_neg (by simpa using hname.ne_empty), trimmed, htrim, String.ofList_toList]
  exact yields_pure name rest

theorem arrow?_yields (kind : MessageKind) (hrest : rest.head? ≠ some '>') :
    Yields arrow? kind.arrow.toList rest (some kind) := by
  have hfind : MessageKind.all.find? (fun other =>
      other.arrow.toList.isPrefixOf (kind.arrow.toList ++ rest)) = some kind := by
    cases rest with
    | nil => cases kind <;> simp [MessageKind.all, MessageKind.arrow, List.isPrefixOf]
    | cons char rest =>
        have hne : '>' ≠ char := fun heq => hrest (by rw [← heq]; rfl)
        cases kind <;> simp [MessageKind.all, MessageKind.arrow, List.isPrefixOf, hne]
  refine yields_skip fun offset => ?_
  dsimp only
  rw [hfind, String.length_toList]

theorem edge?_yields (edge : Option ActivationEdge) (hplus : rest.head? ≠ some '+')
    (hminus : rest.head? ≠ some '-') : Yields edge? (signOf edge) rest edge := by
  cases edge with
  | none =>
      refine (eat_yields_false hplus).bind_nil ?_
      refine (eat_yields_false hminus).bind_nil ?_
      exact yields_pure none rest
  | some edge =>
      cases edge with
      | start =>
          refine (eat_yields '+' rest).bind_end ?_
          exact yields_pure _ rest
      | stop =>
          refine (eat_yields_false (by simp [signOf])).bind_nil ?_
          refine (eat_yields '-' rest).bind_end ?_
          exact yields_pure _ rest

theorem head?_signOf_append_ne {mark : Char} (hmark : mark ∉ ['+', '-'])
    (hrest : rest.head? ≠ some mark) (edge : Option ActivationEdge) :
    (signOf edge ++ rest).head? ≠ some mark := by
  simp only [List.mem_cons, List.not_mem_nil, or_false, not_or] at hmark
  rcases edge with _ | _ | _
  · exact hrest
  · rintro ⟨⟩
    exact hmark.1 rfl
  · rintro ⟨⟩
    exact hmark.2 rfl

theorem followsWord_append {pad : List Char} (hpad : Spacing pad) (hne : pad ≠ []) :
    followsWord (pad ++ rest) = true := by
  obtain ⟨char, pad, rfl⟩ := List.exists_cons_of_ne_nil hne
  have hchar := hpad char (by simp)
  simp only [isIndent, Bool.or_eq_true, beq_iff_eq] at hchar
  rcases hchar with (rfl | rfl) | rfl <;> rfl

theorem eatWord_yields {word : String} (hspells : Spells word text)
    (hrest : followsWord rest = true) : Yields (eatWord word) text rest true :=
  attempt_yields fun offset => Cursor.skipWord?_append hspells hrest offset

theorem eatSide_yields {side : String} {pad word : List Char} (hside : Spells side left)
    (hpad : Spacing pad) (hne : pad ≠ []) (hword : Spells "of" word)
    (hrest : followsWord rest = true) : Yields (eatSide side) (left ++ pad ++ word) rest true := by
  refine attempt_yields fun offset => ?_
  have hspaced : ∀ offset, (Cursor.mk (pad ++ (word ++ rest)) offset).skipIndent =
      ⟨word ++ rest, offset + byteLength pad⟩ := by
    intro offset
    rw [Cursor.skipIndent, takeWhile_isIndent hpad (hword.unindented (by decide) (by decide) _),
      Cursor.skip_length]
  rw [List.append_assoc, List.append_assoc,
    Cursor.skipWord?_append hside (followsWord_append hpad hne), Option.bind_some, hspaced,
    Cursor.skipWord?_append hword hrest]
  simp [Nat.add_assoc]

theorem skipWord?_eq_none {word other : String} (hspells : Spells other text)
    (hhead : word.toList.head?.map Char.toLower ≠ other.toList.head?.map Char.toLower)
    (hword : word ≠ "") (hother : other ≠ "") (follows : List Char → Bool)
    (offset : Nat) : (Cursor.mk (text ++ rest) offset).skipWord? follows word = none := by
  cases hskip : (Cursor.mk (text ++ rest) offset).skipWord? follows word with
  | none => rfl
  | some later =>
      obtain ⟨spelled, after, htext, hspelled, -⟩ := Cursor.exists_of_skipWord? hskip
      obtain ⟨first, more, rfl⟩ := List.exists_cons_of_ne_nil (hspells.ne_nil hother)
      obtain ⟨letter, letters, rfl⟩ := List.exists_cons_of_ne_nil (hspelled.ne_nil hword)
      have hfirst : first = letter := (List.cons.inj htext).1
      rw [← List.head?_map, ← List.head?_map, ← hspells, ← hspelled, hfirst] at hhead
      exact absurd rfl hhead

theorem placement_yields {placed : NotePlacement} (hplaced : PrintedPlacement placed text)
    (hrest : followsWord rest = true) : Yields placement text rest placed := by
  cases hplaced with
  | leftOf hside hpad hne hword =>
      refine (eatSide_yields hside hpad hne hword hrest).bind_end ?_
      exact yields_pure _ rest
  | rightOf hside hpad hne hword =>
      refine Yields.bind_nil (attempt_yields_false fun offset => ?_) ?_
      · rw [List.append_assoc, List.append_assoc,
          skipWord?_eq_none hside (by decide) (by decide) (by decide), Option.bind_none]
      refine (eatSide_yields hside hpad hne hword hrest).bind_end ?_
      exact yields_pure _ rest
  | across hword =>
      refine Yields.bind_nil (attempt_yields_false fun offset => ?_) ?_
      · rw [skipWord?_eq_none hword (by decide) (by decide) (by decide), Option.bind_none]
      refine Yields.bind_nil (attempt_yields_false fun offset => ?_) ?_
      · rw [skipWord?_eq_none hword (by decide) (by decide) (by decide), Option.bind_none]
      refine (eatWord_yields hword hrest).bind_end ?_
      exact yields_pure _ rest

end Reading

end SequenceChart
