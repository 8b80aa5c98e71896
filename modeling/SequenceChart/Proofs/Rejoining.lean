import Mathlib.Tactic.Ring
import SequenceChart.Measure.Grid
import SequenceChart.Proofs.Filling
import SequenceChart.Proofs.Tags

/-!
# Tags in wrapped lines

A text is broken at tags with ASCII spaces in them, and its words are then put together with a space
where there were blanks of any kind. So a line can hold a break tag that the text did not have: the
two ends of a tag stood apart there, with other blanks between them. If the text has no such tag, no
line has a break in it; if it has one, there are lines that do.
-/

namespace SequenceChart

/-- Whatever would be a break tag if all of its blanks were spaces is one. -/
def Tight (text : List Char) : Prop :=
  ∀ tag, IsTag isBlank tag → tag <:+: text → IsBreakTag tag

theorem isBlank_of_isTagSpace {char : Char} (hspace : isTagSpace char = true) :
    isBlank char = true := by
  simp only [isTagSpace, Bool.or_eq_true, beq_iff_eq] at hspace
  rcases hspace with (((rfl | rfl) | rfl) | rfl) | rfl <;> rfl

/-- A tag is made of two words, and of spaces between them that others may stand for. -/
theorem IsTag.exists_ends {isSpace : Char → Bool} {tag : List Char} (htag : IsTag isSpace tag) :
    ∃ opening spaces closing, tag = opening ++ spaces ++ closing ∧ IsWord opening ∧
      IsWord closing ∧ (∀ char ∈ spaces, isSpace char = true) ∧
      ∀ isOther others, (∀ char ∈ others, isOther char = true) →
        IsTag isOther (opening ++ others ++ closing) := by
  obtain ⟨name, spaces, slash, rfl, hname, hspaces, hslash⟩ := htag
  have hletters : ∀ char ∈ '<' :: name, isBlank char = false := by
    refine List.forall_mem_cons.mpr ⟨by decide, fun char hchar => ?_⟩
    rw [Bool.eq_false_iff]
    intro hblank
    have hlower := List.mem_map_of_mem (f := Char.toLower) hchar
    rw [toLower_of_isBlank hblank, hname] at hlower
    rcases List.mem_pair.mp hlower with rfl | rfl
    · exact absurd hblank (by decide)
    · exact absurd hblank (by decide)
  have hclosing : IsWord (slash ++ ['>']) := by
    rcases hslash with rfl | rfl
    · exact ⟨List.cons_ne_nil _ _, List.forall_mem_singleton.mpr rfl⟩
    · exact ⟨List.cons_ne_nil _ _,
        List.forall_mem_cons.mpr ⟨rfl, List.forall_mem_singleton.mpr rfl⟩⟩
  refine ⟨'<' :: name, spaces, slash ++ ['>'], ?_, ⟨List.cons_ne_nil _ _, hletters⟩, hclosing,
    hspaces, fun isOther others hothers => ⟨name, others, slash, ?_, hname, hothers, hslash⟩⟩
  · simp only [List.append_assoc, List.cons_append]
  · simp only [List.append_assoc, List.cons_append]

/-- A break tag on a line of words of a part comes from a tag of the part, or from one with blanks
that the line has put a space for. -/
theorem exists_tag_of_joinWords {part tag : List Char} {run : List (List Char)}
    (hrun : run <:+: words part) (htag : IsBreakTag tag) (hinside : tag <:+: joinWords run) :
    ∃ loose, IsTag isBlank loose ∧ loose <:+: part := by
  have hwords : words (joinWords run) = run :=
    words_joinWords fun word hword => isWord_of_mem_words (hrun.subset hword)
  obtain ⟨opening, spaces, closing, rfl, hopening, hclosing, hspaces, htags⟩ := htag.exists_ends
  cases spaces with
  | nil =>
      have hsolid : IsWord (opening ++ [] ++ closing) := by
        rw [List.append_nil]
        exact hclosing.append_left hopening.2
      obtain ⟨word, hword, hpiece⟩ := hsolid.exists_word hinside
      rw [hwords] at hword
      exact ⟨_, htags isBlank [] (fun _ hchar => absurd hchar List.not_mem_nil),
        hpiece.trans (infix_of_mem_words (hrun.subset hword))⟩
  | cons space spaces =>
      obtain ⟨left, right, hline⟩ := hinside
      have hblanks : ∀ char ∈ space :: spaces, isBlank char = true :=
        fun char hchar => isBlank_of_isTagSpace (hspaces char hchar)
      obtain ⟨earlier, head, tail, later, hacross⟩ :=
        hopening.exists_words_across hclosing (List.cons_ne_nil space spaces) hblanks left right
      rw [hline, hwords] at hacross
      obtain ⟨before, behind, hpart⟩ := hrun
      rw [hacross] at hpart
      have hsplit : words part = (before ++ earlier) ++
          (head ++ opening) :: (closing ++ tail) :: (later ++ behind) := by
        rw [← hpart]
        simp only [List.append_assoc, List.cons_append]
      obtain ⟨gap, -, hgap, hpiece⟩ := exists_gap_of_words hsplit
      refine ⟨opening ++ gap ++ closing, htags isBlank gap hgap, List.IsInfix.trans ?_ hpiece⟩
      exact ⟨head, tail, by simp only [List.append_assoc]⟩

theorem unbroken_of_mem_wrapPart {text part line : List Char} {fits : List Char → Bool}
    (htight : Tight text) (hpart : part ∈ splitBreaks text) (hline : line ∈ wrapPart fits part) :
    Unbroken line := by
  have hfilled := filledGreedily_wrapPart fits part
  have hrun : words line <:+: words part := by
    rw [← hfilled.words_eq, List.flatMap_def]
    exact List.infix_of_mem_flatten (List.mem_map_of_mem hline)
  rw [← hfilled.spaced line hline]
  intro tag htag hinside
  obtain ⟨loose, hloose, hinPart⟩ := exists_tag_of_joinWords hrun htag hinside
  have hbreak := htight loose hloose (hinPart.trans (part_of_mem_splitBreaks hpart))
  exact unbroken_of_mem_splitBreaks hpart loose hbreak hinPart

/-- Blanks that are ASCII spaces leave nothing to be taken for a tag later. -/
theorem tight_of_spaces {text : List Char}
    (hspaces : ∀ char ∈ text, isBlank char = true → isTagSpace char = true) : Tight text := by
  intro tag htag hinside
  obtain ⟨opening, blanks, closing, rfl, -, -, hblanks, htags⟩ := htag.exists_ends
  refine htags isTagSpace blanks fun char hchar => hspaces char ?_ (hblanks char hchar)
  exact hinside.subset (List.mem_append_left _ (List.mem_append_right _ hchar))

theorem wrapPart_of_fits {fits : List Char → Bool} (hfits : ∀ line, fits line = true)
    (part : List Char) : wrapPart fits part = [joinWords (words part)] := by
  have hread : words (joinWords (words part)) = words part :=
    words_joinWords fun word hword => isWord_of_mem_words hword
  refine filledGreedily_iff.mp
    { words_eq := (List.append_nil _).trans hread
      spaced := List.forall_mem_singleton.mpr (congrArg joinWords hread)
      empty := fun hnone => by
        rw [hnone]
        rfl
      begun := fun hsome hempty => hsome ?_
      fitted := fun _ _ start _ _ => hfits (joinWords start)
      full := .singleton _ }
  rw [← hread, ← List.mem_singleton.mp hempty]
  rfl

/-- Put on one line, the words around a tag with other blanks make a break tag. -/
theorem not_unbroken_joinWords {part loose : List Char} (hloose : IsTag isBlank loose)
    (hother : ¬IsBreakTag loose) (hinside : loose <:+: part) :
    ¬Unbroken (joinWords (words part)) := by
  obtain ⟨opening, blanks, closing, rfl, hopening, hclosing, hblanks, htags⟩ :=
    hloose.exists_ends
  have hsome : blanks ≠ [] := by
    rintro rfl
    exact hother (htags isTagSpace [] fun _ hchar => absurd hchar List.not_mem_nil)
  obtain ⟨left, right, rfl⟩ := hinside
  obtain ⟨earlier, head, tail, later, hwords⟩ :=
    hopening.exists_words_across hclosing hsome hblanks left right
  have hbreak : IsBreakTag (opening ++ [' '] ++ closing) :=
    htags isTagSpace [' '] (List.forall_mem_singleton.mpr rfl)
  have hpair : opening ++ [' '] ++ closing <:+: joinWords [head ++ opening, closing ++ tail] := by
    rw [joinWords_cons_cons, joinWords_singleton]
    exact ⟨head, tail, by simp only [List.append_assoc, List.cons_append, List.nil_append]⟩
  have hline : joinWords [head ++ opening, closing ++ tail] <:+:
      joinWords (earlier ++ [head ++ opening, closing ++ tail] ++ later) :=
    joinWords_part (List.cons_ne_nil _ _) earlier later
  rw [List.append_assoc, List.cons_append, List.cons_append, List.nil_append, ← hwords] at hline
  exact fun hunbroken => hunbroken _ hbreak (hpair.trans hline)

theorem splitLineFeeds_of_notMem {line : List Char} (hline : '\n' ∉ line) :
    splitLineFeeds line = [line] := by
  induction line with
  | nil => rfl
  | cons char line ih =>
      obtain ⟨hchar, hrest⟩ := not_or.mp (mt List.mem_cons.mpr hline)
      rw [splitLineFeeds, if_neg (Ne.symm hchar), ih hrest]
      rfl

theorem lineFeed_notMem_joinWords {run : List (List Char)} (hrun : ∀ word ∈ run, IsWord word) :
    '\n' ∉ joinWords run := by
  have hblank : isBlank '\n' = true := rfl
  have hword {word : List Char} (hword : IsWord word) : '\n' ∉ word :=
    fun hmem => Bool.noConfusion ((hword.2 _ hmem).symm.trans hblank)
  induction run with
  | nil => exact List.not_mem_nil
  | cons word run ih =>
      obtain ⟨hfirst, hrest⟩ := List.forall_mem_cons.mp hrun
      cases run with
      | nil =>
          rw [joinWords_singleton]
          exact hword hfirst
      | cons next run =>
          rw [joinWords_cons_cons, List.mem_append, List.mem_cons]
          rintro (hmem | hmem | hmem)
          · exact hword hfirst hmem
          · exact absurd hmem (by decide)
          · exact ih hrest hmem

theorem textLines_of_unbroken {line : List Char} (hunbroken : Unbroken line)
    (hline : '\n' ∉ line) : textLines line = [line] := by
  rw [textLines, splitBreaks_of_unbroken hunbroken, List.flatMap_singleton,
    splitLineFeeds_of_notMem hline]

theorem lineFeed_notMem_of_mem_wrapPart {fits : List Char → Bool} {part line : List Char}
    (hline : line ∈ wrapPart fits part) : '\n' ∉ line := by
  rw [← (filledGreedily_wrapPart fits part).spaced line hline]
  exact lineFeed_notMem_joinWords fun word hword => isWord_of_mem_words hword

theorem mem_wrapLines {α : Type} [Scale α] {measure : String → TextStyle α → TextMetrics α}
    {text : String} {style : TextStyle α} {maxWidth : α} {line : String} :
    line ∈ wrapLines measure text style maxWidth ↔ ∃ part ∈ splitBreaks text.toList,
      line.toList ∈ wrapPart (fitsWidth measure style maxWidth) part := by
  rw [wrapLines, List.mem_map]
  constructor
  · rintro ⟨chars, hchars, rfl⟩
    rw [String.toList_ofList]
    exact List.mem_flatMap.mp hchars
  · intro hline
    exact ⟨line.toList, List.mem_flatMap.mpr hline, String.ofList_toList⟩

/-- Heights that are all the same add up to a multiple of them. -/
theorem height_stackLines {measure : String → TextStyle ℚ → TextMetrics ℚ} {style : TextStyle ℚ}
    {height : ℚ} {lines : List String}
    (hlines : ∀ line ∈ lines, (measure line style).height = height) :
    (stackLines measure style lines).height = lines.length * height := by
  have hsum (start : ℚ) : (lines.map fun line => measure line style).foldl
      (fun sum line => sum + line.height) start = start + lines.length * height := by
    induction lines generalizing start with
    | nil => simp
    | cons line lines ih =>
        obtain ⟨hline, hlines⟩ := List.forall_mem_cons.mp hlines
        rw [List.map_cons, List.foldl_cons, hline, ih hlines, List.length_cons]
        push_cast
        ring
  have hstart : (0.0 : ℚ) = 0 := by norm_num
  change List.foldl _ 0.0 (lines.map _) = _
  rw [hsum, hstart, zero_add]

namespace Grid

theorem measure_of_unbroken {α : Type} [Scale α] (grid : Grid α) (style : TextStyle α)
    {line : String} (hunbroken : Unbroken line.toList) (hline : '\n' ∉ line.toList) :
    (grid.measure line style).lineCount = 1 ∧
      (grid.measure line style).height = (grid.measure "" style).height := by
  have hlines := textLines_of_unbroken hunbroken hline
  have hempty : textLines "".toList = [[]] := by decide +kernel
  unfold measure
  rw [hlines, hempty]
  exact ⟨rfl, rfl⟩

/-- A grid on which no text has a positive width. -/
def reversed : Grid ℚ :=
  { charWidth := -1, lineHeight := 1 }

theorem fitsWidth_reversed (style : TextStyle ℚ) (line : List Char) :
    fitsWidth reversed.measure style 0 line = true := by
  have hfactor : factor (-1 : ℚ) 0.6 = -1 := if_neg (by decide +kernel)
  have hsize : (0 : ℚ) ≤ max style.fontSize 1.0 := le_max_of_le_right (by norm_num)
  refine decide_eq_true ?_
  change ((((textLines (String.ofList line).toList).map columns).foldl max 0 : ℕ) : ℚ) *
    max style.fontSize 1.0 * factor (-1) 0.6 ≤ 0
  rw [hfactor, mul_neg_one, Left.neg_nonpos_iff]
  exact mul_nonneg (Nat.cast_nonneg _) hsize

end Grid

theorem one_line_of_tight {α : Type} [Scale α] {text : String} (htight : Tight text.toList)
    (grid : Grid α) {style : TextStyle α} {maxWidth : α} {line : String}
    (hline : line ∈ wrapLines grid.measure text style maxWidth) :
    Unbroken line.toList ∧ (grid.measure line style).lineCount = 1 ∧
      (grid.measure line style).height = (grid.measure "" style).height := by
  obtain ⟨part, hpart, hline⟩ := mem_wrapLines.mp hline
  have hunbroken := unbroken_of_mem_wrapPart htight hpart hline
  exact ⟨hunbroken,
    grid.measure_of_unbroken style hunbroken (lineFeed_notMem_of_mem_wrapPart hline)⟩

theorem tight_of_unbroken {text : String} (style : TextStyle ℚ)
    (hlines : ∀ line ∈ wrapLines Grid.reversed.measure text style 0, Unbroken line.toList) :
    Tight text.toList := by
  intro loose hloose hinside
  by_contra hother
  obtain ⟨part, hpart, hinPart⟩ :=
    exists_line_of_bracketed (hloose.bracketed rfl rfl) hother hinside
  have hline : String.ofList (joinWords (words part)) ∈
      wrapLines Grid.reversed.measure text style 0 := by
    refine mem_wrapLines.mpr ⟨part, hpart, ?_⟩
    rw [wrapPart_of_fits (Grid.fitsWidth_reversed style), String.toList_ofList]
    exact List.mem_singleton_self _
  have hunbroken := hlines _ hline
  rw [String.toList_ofList] at hunbroken
  exact not_unbroken_joinWords hloose hother hinPart hunbroken

/-- **Lines without breaks.** The lines of a wrapped text are of one line each, whatever they are
measured with, just if no tag of the text has blanks in it that are not ASCII spaces; and then the
text is as high as so many lines are. -/
theorem wrapLines_one_line (text : String) :
    Tight text.toList ↔
      (∀ (α : Type) [Scale α] (grid : Grid α) (style : TextStyle α) (maxWidth : α),
        ∀ line ∈ wrapLines grid.measure text style maxWidth,
          splitBreaks line.toList = [line.toList] ∧ (grid.measure line style).lineCount = 1) ∧
      ∀ (grid : Grid ℚ) (style : TextStyle ℚ) (maxWidth : ℚ),
        (grid.measurer.measureWrapped text style maxWidth).height =
          (grid.measurer.measureWrapped text style maxWidth).lineCount *
            (grid.measure "" style).height := by
  constructor
  · intro htight
    refine ⟨fun α _ grid style maxWidth line hline => ?_, fun grid style maxWidth => ?_⟩
    · obtain ⟨hunbroken, hcount, -⟩ := one_line_of_tight htight grid hline
      exact ⟨splitBreaks_of_unbroken hunbroken, hcount⟩
    · exact height_stackLines fun line hline => (one_line_of_tight htight grid hline).2.2
  · rintro ⟨hlines, -⟩
    refine tight_of_unbroken ⟨none, 1, none⟩ fun line hline => ?_
    have hwhole := (hlines ℚ Grid.reversed _ 0 line hline).1
    have hmem : line.toList ∈ splitBreaks line.toList := by
      rw [hwhole]
      exact List.mem_singleton_self _
    exact unbroken_of_mem_splitBreaks hmem

theorem spaced_one_line :
    Tight "one <br\t/>two <br".toList ∧
      ∀ line ∈ wrapLines (Grid.standard : Grid Float).measure "one <br\t/>two <br" plainStyle 80.0,
        splitBreaks line.toList = [line.toList] ∧
          ((Grid.standard : Grid Float).measure line plainStyle).lineCount = 1 := by
  have hspaces : "one <br\t/>two <br".toList.all (fun char =>
      !isBlank char || isTagSpace char) = true := by
    decide
  have htight : Tight "one <br\t/>two <br".toList := tight_of_spaces fun char hchar hblank => by
    simpa only [hblank, Bool.not_true, Bool.false_or] using List.all_eq_true.mp hspaces char hchar
  exact ⟨htight, ((wrapLines_one_line _).mp htight).1 Float Grid.standard plainStyle 80.0⟩

/-- A no-break space keeps the ends of a tag apart, and the space that is put for it does not. -/
theorem noBreakSpace_two_lines :
    ¬∀ (text : String) (grid : Grid Float) (style : TextStyle Float) (maxWidth : Float),
      ∀ line ∈ wrapLines grid.measure text style maxWidth,
        (grid.measure line style).lineCount = 1 := by
  intro hone
  have hlines : wrapLines (Grid.standard : Grid Float).measure "<br\u00a0/>" plainStyle 100.0 =
      ["<br />"] := by
    decide +kernel
  have hcount := hone "<br\u00a0/>" Grid.standard plainStyle 100.0 "<br />" (by
    rw [hlines]
    exact List.mem_singleton_self _)
  exact absurd hcount (by decide +kernel)

end SequenceChart
