import Mathlib.Data.List.Induction
import SequenceChart.Text.Blank

/-!
# Words

The words of a text are what stands between its blanks. A blank between two texts keeps their words
apart, and a text without blanks is a word of its own; both together tell the words of every text.
Words that are put on a line with a space between each two are read back from it.
-/

namespace SequenceChart

/-- A text with some characters and no blank. -/
def IsWord (text : List Char) : Prop :=
  text ≠ [] ∧ ∀ char ∈ text, isBlank char = false

/-- The words with a space between each two. -/
def joinWords (run : List (List Char)) : List Char :=
  [' '].intercalate run

/-- The word at the very start of a text, empty if a blank stands there, and the words behind it. -/
def leadingWord (text : List Char) : List Char × List (List Char) :=
  text.foldr
    (fun char (current, later) =>
      if isBlank char then ([], if current.isEmpty then later else current :: later)
      else (char :: current, later))
    ([], [])

theorem words_eq (text : List Char) :
    words text = if (leadingWord text).1.isEmpty then (leadingWord text).2
      else (leadingWord text).1 :: (leadingWord text).2 := rfl

theorem leadingWord_cons_blank {blank : Char} (hblank : isBlank blank = true)
    (rest : List Char) : leadingWord (blank :: rest) = ([], words rest) :=
  if_pos hblank

theorem leadingWord_cons {char : Char} (hchar : isBlank char = false) (rest : List Char) :
    leadingWord (char :: rest) = (char :: (leadingWord rest).1, (leadingWord rest).2) :=
  if_neg (Bool.eq_false_iff.mp hchar)

theorem words_cons_blank {blank : Char} (hblank : isBlank blank = true) (rest : List Char) :
    words (blank :: rest) = words rest := by
  rw [words_eq (blank :: rest), leadingWord_cons_blank hblank]
  rfl

theorem leadingWord_append_blank {blank : Char} (hblank : isBlank blank = true)
    (left right : List Char) :
    leadingWord (left ++ blank :: right) =
      ((leadingWord left).1, (leadingWord left).2 ++ words right) := by
  induction left with
  | nil => exact leadingWord_cons_blank hblank right
  | cons char left ih =>
      rw [List.cons_append]
      cases hchar : isBlank char with
      | true =>
          rw [leadingWord_cons_blank hchar, leadingWord_cons_blank hchar, words_eq (left ++ _), ih,
            words_eq left]
          split <;> rfl
      | false => rw [leadingWord_cons hchar, leadingWord_cons hchar, ih]

/-- A blank keeps the words on its two sides apart. -/
theorem words_append_blank {blank : Char} (hblank : isBlank blank = true)
    (left right : List Char) :
    words (left ++ blank :: right) = words left ++ words right := by
  rw [words_eq, leadingWord_append_blank hblank, words_eq left]
  split <;> rfl

theorem words_blanks_append {blanks : List Char} (hblanks : ∀ char ∈ blanks, isBlank char = true)
    (rest : List Char) : words (blanks ++ rest) = words rest := by
  induction blanks with
  | nil => rfl
  | cons blank blanks ih =>
      obtain ⟨hblank, hblanks⟩ := List.forall_mem_cons.mp hblanks
      rw [List.cons_append, words_cons_blank hblank, ih hblanks]

theorem leadingWord_of_no_blank {text : List Char} (htext : ∀ char ∈ text, isBlank char = false) :
    leadingWord text = (text, []) := by
  induction text with
  | nil => rfl
  | cons char rest ih =>
      obtain ⟨hchar, hrest⟩ := List.forall_mem_cons.mp htext
      rw [leadingWord_cons hchar, ih hrest]

theorem IsWord.words_eq {word : List Char} (hword : IsWord word) : words word = [word] := by
  rw [SequenceChart.words_eq, leadingWord_of_no_blank hword.2,
    if_neg (mt List.isEmpty_iff.mp hword.1)]

/-- A text has blanks only, or it has a first word, which ends the text or has a blank behind it. -/
theorem words_cases (text : List Char) :
    (∀ char ∈ text, isBlank char = true) ∨
      ∃ gap word rest, text = gap ++ (word ++ rest) ∧ (∀ char ∈ gap, isBlank char = true) ∧
        IsWord word ∧ (∀ char ∈ rest.head?, isBlank char = true) ∧
        words text = word :: words rest := by
  have hgap : ∀ char ∈ text.takeWhile isBlank, isBlank char = true :=
    List.all_eq_true.mp List.all_takeWhile
  have htext : text = text.takeWhile isBlank ++ text.dropWhile isBlank :=
    List.takeWhile_append_dropWhile.symm
  cases hbehind : text.dropWhile isBlank with
  | nil =>
      left
      rw [htext, hbehind, List.append_nil]
      exact hgap
  | cons first behind =>
      right
      have hfirst : isBlank first = false := by
        have hnot := List.head?_dropWhile_not isBlank text
        rw [hbehind] at hnot
        exact hnot
      have hword : IsWord (first :: behind.takeWhile (!isBlank ·)) := by
        refine ⟨List.cons_ne_nil _ _, List.forall_mem_cons.mpr ⟨hfirst, fun char hchar => ?_⟩⟩
        have hkept := List.all_eq_true.mp List.all_takeWhile char hchar
        exact (Bool.not_eq_true' _).mp hkept
      have hsplit : first :: behind =
          (first :: behind.takeWhile (!isBlank ·)) ++ behind.dropWhile (!isBlank ·) :=
        congrArg (first :: ·) List.takeWhile_append_dropWhile.symm
      have hrest : ∀ char ∈ (behind.dropWhile (!isBlank ·)).head?, isBlank char = true := by
        intro char hchar
        have hnot := List.head?_dropWhile_not (!isBlank ·) behind
        rw [Option.mem_def.mp hchar] at hnot
        simpa using hnot
      refine ⟨text.takeWhile isBlank, _, _, ?_, hgap, hword, hrest, ?_⟩
      · rw [← hsplit, ← hbehind]
        exact htext
      · rw [htext, words_blanks_append hgap, hbehind, hsplit]
        cases hend : behind.dropWhile (!isBlank ·) with
        | nil =>
            rw [List.append_nil, hword.words_eq]
            rfl
        | cons blank rest =>
            have hblank := hrest blank (by rw [hend]; rfl)
            rw [words_append_blank hblank, hword.words_eq, words_cons_blank hblank]
            rfl

theorem words_of_blanks {text : List Char} (hblanks : ∀ char ∈ text, isBlank char = true) :
    words text = [] := by
  have hwords := words_blanks_append hblanks []
  rwa [List.append_nil] at hwords

/-- Every text has blanks only, or it has a first word and goes on behind it. -/
theorem words_induction {motive : List Char → Prop}
    (blanks : ∀ text, words text = [] → motive text)
    (word : ∀ gap first rest, IsWord first → (∀ char ∈ rest.head?, isBlank char = true) →
      words (gap ++ (first ++ rest)) = first :: words rest → motive rest →
      motive (gap ++ (first ++ rest))) (text : List Char) : motive text := by
  induction hlength : text.length using Nat.strongRecOn generalizing text with
  | ind length ih =>
      rcases words_cases text with hblanks | ⟨gap, first, rest, rfl, -, hfirst, hrest, hwords⟩
      · exact blanks text (words_of_blanks hblanks)
      · refine word gap first rest hfirst hrest hwords (ih rest.length ?_ rest rfl)
        have hpos := List.length_pos_iff.mpr hfirst.1
        simp only [List.length_append] at hlength
        omega

theorem isWord_of_mem_words {text word : List Char} (hmem : word ∈ words text) : IsWord word := by
  induction text using words_induction with
  | blanks text hnone =>
      rw [hnone] at hmem
      exact absurd hmem List.not_mem_nil
  | word gap first rest hfirst _ hwords ih =>
      rw [hwords] at hmem
      rcases List.mem_cons.mp hmem with rfl | hmem
      · exact hfirst
      · exact ih hmem

/-- What stands before a text adds words of its own, and a beginning to the first word behind. -/
theorem exists_words_append (left : List Char) :
    ∃ earlier head, (∀ char ∈ head, isBlank char = false) ∧
      ∀ right, words (left ++ right) = earlier ++ words (head ++ right) := by
  induction left using List.reverseRecOn with
  | nil => exact ⟨[], [], fun _ hchar => absurd hchar List.not_mem_nil, fun _ => rfl⟩
  | append_singleton left char ih =>
      obtain ⟨earlier, head, hhead, hwords⟩ := ih
      cases hchar : isBlank char with
      | true =>
          refine ⟨earlier ++ words head, [], fun _ hchar => absurd hchar List.not_mem_nil, ?_⟩
          intro right
          rw [List.append_assoc, List.singleton_append, hwords, words_append_blank hchar,
            List.append_assoc, List.nil_append]
      | false =>
          refine ⟨earlier, head ++ [char], ?_, fun right => ?_⟩
          · exact List.forall_mem_append.mpr ⟨hhead, List.forall_mem_singleton.mpr hchar⟩
          · rw [List.append_assoc, List.singleton_append, hwords, List.append_assoc,
              List.singleton_append]

theorem leadingWord_append {head : List Char} (hhead : ∀ char ∈ head, isBlank char = false)
    (text : List Char) :
    leadingWord (head ++ text) = (head ++ (leadingWord text).1, (leadingWord text).2) := by
  induction head with
  | nil => rfl
  | cons char head ih =>
      obtain ⟨hchar, hhead⟩ := List.forall_mem_cons.mp hhead
      rw [List.cons_append, leadingWord_cons hchar, ih hhead]
      rfl

/-- A text without blanks begins the first word of what it stands at the start of. -/
theorem IsWord.words_append {word : List Char} (hword : IsWord word) (text : List Char) :
    ∃ tail later, words (word ++ text) = (word ++ tail) :: later := by
  refine ⟨(leadingWord text).1, (leadingWord text).2, ?_⟩
  rw [SequenceChart.words_eq, leadingWord_append hword.2]
  exact if_neg fun hempty => hword.1 (List.append_eq_nil_iff.mp (List.isEmpty_iff.mp hempty)).1

theorem IsWord.append_left {head word : List Char} (hword : IsWord word)
    (hhead : ∀ char ∈ head, isBlank char = false) : IsWord (head ++ word) :=
  ⟨List.append_ne_nil_of_right_ne_nil _ hword.1, List.forall_mem_append.mpr ⟨hhead, hword.2⟩⟩

/-- A piece of a text that has no blank is a piece of one of its words. -/
theorem IsWord.exists_word {piece text : List Char} (hpiece : IsWord piece)
    (hinside : piece <:+: text) : ∃ word ∈ words text, piece <:+: word := by
  obtain ⟨left, right, rfl⟩ := hinside
  obtain ⟨earlier, head, hhead, hwords⟩ := exists_words_append left
  obtain ⟨tail, later, hlonger⟩ := (hpiece.append_left hhead).words_append right
  refine ⟨head ++ piece ++ tail, ?_, List.infix_append head piece tail⟩
  rw [List.append_assoc, hwords, ← List.append_assoc, hlonger]
  exact List.mem_append_right _ List.mem_cons_self

/-- Two pieces with blanks between them end one word and begin the next. -/
theorem IsWord.exists_words_across {piece next gap : List Char} (hpiece : IsWord piece)
    (hnext : IsWord next) (hgap : gap ≠ []) (hblanks : ∀ char ∈ gap, isBlank char = true)
    (left right : List Char) :
    ∃ earlier head tail later, words (left ++ (piece ++ gap ++ next) ++ right) =
      earlier ++ (head ++ piece) :: (next ++ tail) :: later := by
  obtain ⟨earlier, head, hhead, hwords⟩ := exists_words_append left
  obtain ⟨tail, later, hbehind⟩ := hnext.words_append right
  obtain ⟨blank, gap, rfl⟩ := List.exists_cons_of_ne_nil hgap
  obtain ⟨hblank, hblanks⟩ := List.forall_mem_cons.mp hblanks
  refine ⟨earlier, head, tail, later, ?_⟩
  calc words (left ++ (piece ++ blank :: gap ++ next) ++ right)
      = words (left ++ (piece ++ blank :: (gap ++ (next ++ right)))) := by
        simp only [List.append_assoc, List.cons_append]
    _ = earlier ++ (words (head ++ piece) ++ words (gap ++ (next ++ right))) := by
        rw [hwords, ← List.append_assoc, words_append_blank hblank]
    _ = _ := by
        rw [(hpiece.append_left hhead).words_eq, words_blanks_append hblanks, hbehind]
        rfl

/-- A word stands in its text, with a blank or nothing behind it, and then the later words. -/
theorem exists_split_of_words {text word : List Char} {earlier later : List (List Char)}
    (hwords : words text = earlier ++ word :: later) :
    ∃ left right, text = left ++ (word ++ right) ∧ words right = later ∧
      ∀ char ∈ right.head?, isBlank char = true := by
  induction text using words_induction generalizing earlier with
  | blanks text hnone =>
      rw [hnone] at hwords
      exact absurd hwords.symm (List.append_ne_nil_of_right_ne_nil _ (List.cons_ne_nil _ _))
  | word gap first rest _ hrest hcons ih =>
      rw [hcons] at hwords
      cases earlier with
      | nil =>
          obtain ⟨rfl, hlater⟩ := List.cons.inj hwords
          exact ⟨gap, rest, rfl, hlater, hrest⟩
      | cons _ earlier =>
          obtain ⟨rfl, hearlier⟩ := List.cons.inj hwords
          obtain ⟨left, right, hsplit, hlater⟩ := ih hearlier
          refine ⟨gap ++ (first ++ left), right, ?_, hlater⟩
          rw [hsplit, List.append_assoc, List.append_assoc]

theorem infix_of_mem_words {text word : List Char} (hmem : word ∈ words text) :
    word <:+: text := by
  obtain ⟨earlier, later, hwords⟩ := List.append_of_mem hmem
  obtain ⟨left, right, rfl, -⟩ := exists_split_of_words hwords
  exact ⟨left, right, List.append_assoc _ _ _⟩

/-- Between two words of a text that follow each other stand blanks. -/
theorem exists_gap_of_words {text word next : List Char} {earlier later : List (List Char)}
    (hwords : words text = earlier ++ word :: next :: later) :
    ∃ gap, gap ≠ [] ∧ (∀ char ∈ gap, isBlank char = true) ∧ word ++ gap ++ next <:+: text := by
  obtain ⟨left, right, rfl, hright, hhead⟩ := exists_split_of_words hwords
  rcases words_cases right with hblanks | ⟨gap, first, rest, rfl, hgap, hfirst, -, hcons⟩
  · rw [words_of_blanks hblanks] at hright
    exact nomatch hright
  · rw [hcons] at hright
    obtain ⟨rfl, -⟩ := List.cons.inj hright
    refine ⟨gap, ?_, hgap, left, rest, by simp only [List.append_assoc]⟩
    rintro rfl
    obtain ⟨char, rest, rfl⟩ := List.exists_cons_of_ne_nil hfirst.1
    have hblank := hhead char rfl
    rw [hfirst.2 char List.mem_cons_self] at hblank
    exact Bool.noConfusion hblank

theorem joinWords_singleton (word : List Char) : joinWords [word] = word :=
  List.intercalate_singleton

theorem joinWords_cons_cons (word next : List Char) (run : List (List Char)) :
    joinWords (word :: next :: run) = word ++ ' ' :: joinWords (next :: run) := by
  simp [joinWords, List.intercalate_cons_cons]

theorem joinWords_append {left right : List (List Char)} (hleft : left ≠ [])
    (hright : right ≠ []) :
    joinWords (left ++ right) = joinWords left ++ ' ' :: joinWords right := by
  obtain ⟨next, right, rfl⟩ := List.exists_cons_of_ne_nil hright
  induction left with
  | nil => exact absurd rfl hleft
  | cons word left ih =>
      cases left with
      | nil => rw [List.singleton_append, joinWords_cons_cons, joinWords_singleton]
      | cons second left =>
          have hjoined := ih (List.cons_ne_nil second left)
          rw [List.cons_append] at hjoined
          rw [List.cons_append, List.cons_append, joinWords_cons_cons, joinWords_cons_cons,
            hjoined, List.append_assoc]
          rfl

theorem joinWords_concat {run : List (List Char)} (hrun : run ≠ []) (word : List Char) :
    joinWords (run ++ [word]) = joinWords run ++ ' ' :: word := by
  rw [joinWords_append hrun (List.cons_ne_nil _ _), joinWords_singleton]

/-- Some of the words of a line stand on it as they would on a line of their own. -/
theorem joinWords_part {run : List (List Char)} (hrun : run ≠ []) (first last : List (List Char)) :
    joinWords run <:+: joinWords (first ++ run ++ last) := by
  have hbefore : joinWords run <:+: joinWords (first ++ run) := by
    cases first with
    | nil => exact List.infix_rfl
    | cons word first =>
        rw [joinWords_append (List.cons_ne_nil _ _) hrun]
        exact ((List.suffix_cons _ _).trans (List.suffix_append _ _)).isInfix
  cases last with
  | nil =>
      rw [List.append_nil]
      exact hbefore
  | cons word last =>
      rw [joinWords_append (List.append_ne_nil_of_right_ne_nil _ hrun) (List.cons_ne_nil _ _)]
      exact hbefore.trans (List.prefix_append _ _).isInfix

/-- Words on a line are the words of the line. -/
theorem words_joinWords {run : List (List Char)} (hrun : ∀ word ∈ run, IsWord word) :
    words (joinWords run) = run := by
  induction run with
  | nil => rfl
  | cons word run ih =>
      obtain ⟨hword, hrest⟩ := List.forall_mem_cons.mp hrun
      cases run with
      | nil => rw [joinWords_singleton, hword.words_eq]
      | cons next run =>
          rw [joinWords_cons_cons, words_append_blank (by decide), hword.words_eq, ih hrest]
          rfl

end SequenceChart
