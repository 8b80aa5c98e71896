import Mathlib.Data.List.Chain
import Mathlib.Data.List.Forall2
import SequenceChart.Measure.Basic
import SequenceChart.Proofs.Largest
import SequenceChart.Proofs.Words

/-!
# Lines filled greedily

A part without breaks is laid out in runs of words. Each line takes words as long as it fits, and a
word that does not fit begins the next line. No word is lost or moved, a line with more than one
word has fitted at each of them, and no line could have taken the first word of the next one. There
is just one way to lay out a part like that.
-/

namespace SequenceChart

variable {fits : List Char → Bool} {run : List (List Char)} {runs : List (List (List Char))}

/-- Fills runs with words, from a run that holds some already. -/
def fillRuns (fits : List Char → Bool) (run : List (List Char)) :
    List (List Char) → List (List (List Char))
  | [] => [run]
  | word :: rest =>
      if fits (joinWords (run ++ [word])) then fillRuns fits (run ++ [word]) rest
      else run :: fillRuns fits [word] rest

/-- The runs that some words are laid out in. -/
def greedyRuns (fits : List Char → Bool) : List (List Char) → List (List (List Char))
  | [] => []
  | word :: rest => fillRuns fits [word] rest

theorem fillLines_joinWords (hrun : run ≠ []) (rest : List (List Char)) :
    fillLines fits (joinWords run) rest = (fillRuns fits run rest).map joinWords := by
  induction rest generalizing run with
  | nil => rfl
  | cons word rest ih =>
      rw [fillLines, fillRuns, ← joinWords_concat hrun]
      split
      · exact ih (List.append_ne_nil_of_right_ne_nil _ (List.cons_ne_nil _ _))
      · rw [List.map_cons, ← ih (List.cons_ne_nil _ _), joinWords_singleton]

/-- The words that a run takes next keep it fitting, one after the other. -/
def Takes (fits : List Char → Bool) (run more : List (List Char)) : Prop :=
  ∀ start, start <+: more → start ≠ [] → fits (joinWords (run ++ start)) = true

/-- The first run takes words as long as it fits, and the others are laid out in the same way. -/
theorem fillRuns_cases (fits : List Char → Bool) (run rest : List (List Char)) :
    ∃ more later, rest = more ++ later ∧ Takes fits run more ∧
      (∀ word ∈ later.head?, fits (joinWords (run ++ more ++ [word])) = false) ∧
      fillRuns fits run rest = (run ++ more) :: greedyRuns fits later := by
  induction rest generalizing run with
  | nil =>
      refine ⟨[], [], rfl, ?_, ?_, ?_⟩
      · intro start hstart hne
        exact absurd (List.prefix_nil.mp hstart) hne
      · intro word hword
        exact nomatch hword
      · rw [List.append_nil]
        rfl
  | cons word rest ih =>
      rw [fillRuns]
      split
      · rename_i hfits
        obtain ⟨more, later, rfl, htakes, hfull, hruns⟩ := ih (run ++ [word])
        refine ⟨word :: more, later, rfl, ?_, ?_, ?_⟩
        · intro start hstart hne
          obtain ⟨first, start, rfl⟩ := List.exists_cons_of_ne_nil hne
          obtain ⟨rfl, hmore⟩ := List.cons_prefix_cons.mp hstart
          cases start with
          | nil => exact hfits
          | cons next start =>
              have hlonger := htakes (next :: start) hmore (List.cons_ne_nil _ _)
              rwa [List.append_assoc] at hlonger
        · intro next hnext
          have hover := hfull next hnext
          rwa [List.append_assoc run, List.singleton_append] at hover
        · rw [hruns, List.append_assoc, List.singleton_append]
      · rename_i hover
        refine ⟨[], word :: rest, rfl, ?_, ?_, ?_⟩
        · intro start hstart hne
          exact absurd (List.prefix_nil.mp hstart) hne
        · intro next hnext
          obtain rfl := Option.some.inj hnext
          rw [List.append_nil]
          exact Bool.eq_false_iff.mpr hover
        · rw [List.append_nil]
          rfl

/-- A run that can take some words does. -/
theorem fillRuns_append {more : List (List Char)} (htakes : Takes fits run more)
    (rest : List (List Char)) :
    fillRuns fits run (more ++ rest) = fillRuns fits (run ++ more) rest := by
  induction more generalizing run with
  | nil => rw [List.append_nil, List.nil_append]
  | cons word more ih =>
      have hfirst : fits (joinWords (run ++ [word])) = true :=
        htakes [word] (List.prefix_append [word] more) (List.cons_ne_nil _ _)
      have hlater : Takes fits (run ++ [word]) more := by
        intro start hstart _
        rw [List.append_assoc]
        exact htakes (word :: start) (List.cons_prefix_cons.mpr ⟨rfl, hstart⟩)
          (List.cons_ne_nil _ _)
      rw [List.cons_append, fillRuns, if_pos hfirst, ih hlater, List.append_assoc,
        List.singleton_append]

theorem Takes.fitted {word : List Char} {more start : List (List Char)}
    (htakes : Takes fits [word] more) (hstart : start <+: word :: more)
    (hlength : 2 ≤ start.length) : fits (joinWords start) = true := by
  cases start with
  | nil => exact absurd hlength (Nat.not_succ_le_zero 1)
  | cons first start =>
      obtain ⟨rfl, hmore⟩ := List.cons_prefix_cons.mp hstart
      refine htakes start hmore ?_
      rintro rfl
      exact absurd hlength (Nat.not_succ_le_self 1)

/-- The runs hold the words in order, none is empty, each fitted at every word after its first, and
none fits with the first word of the next one. -/
structure GreedyRuns (fits : List Char → Bool) (texts : List (List Char))
    (runs : List (List (List Char))) : Prop where
  flatten_eq : runs.flatten = texts
  begun : [] ∉ runs
  fitted : ∀ run ∈ runs, ∀ start, start <+: run → 2 ≤ start.length →
    fits (joinWords start) = true
  full : runs.IsChain fun run next =>
    ∃ word ∈ next.head?, fits (joinWords (run ++ [word])) = false

theorem greedyRuns_spec (fits : List Char → Bool) (texts : List (List Char)) :
    GreedyRuns fits texts (greedyRuns fits texts) := by
  induction hlength : texts.length using Nat.strong_induction_on generalizing texts with
  | _ length ih =>
      cases texts with
      | nil =>
          exact ⟨rfl, List.not_mem_nil, fun run hrun => absurd hrun List.not_mem_nil, .nil⟩
      | cons word rest =>
          obtain ⟨more, later, rfl, htakes, hfull, hruns⟩ := fillRuns_cases fits [word] rest
          have hshorter : later.length < length := by
            simp only [List.length_cons, List.length_append] at hlength
            omega
          have hlater := ih later.length hshorter later rfl
          rw [greedyRuns, hruns]
          refine ⟨?_, ?_, ?_, hlater.full.cons ?_⟩
          · rw [List.flatten_cons, hlater.flatten_eq]
            rfl
          · intro hmem
            exact hlater.begun (List.mem_of_ne_of_mem (List.cons_ne_nil _ _).symm hmem)
          · intro run hrun start hstart htwo
            rcases List.mem_cons.mp hrun with rfl | hrun
            · exact htakes.fitted hstart htwo
            · exact hlater.fitted run hrun start hstart htwo
          · intro next hnext
            cases later with
            | nil => exact nomatch hnext
            | cons first later =>
                obtain ⟨_, _, -, -, -, hfirst⟩ := fillRuns_cases fits [first] later
                rw [greedyRuns, hfirst] at hnext
                obtain rfl := Option.some.inj hnext
                exact ⟨first, rfl, hfull first rfl⟩

/-- No other runs are like that. -/
theorem GreedyRuns.eq_greedyRuns {texts : List (List Char)} (hruns : GreedyRuns fits texts runs) :
    runs = greedyRuns fits texts := by
  induction runs generalizing texts with
  | nil =>
      rw [← hruns.flatten_eq]
      rfl
  | cons run runs ih =>
      cases run with
      | nil => exact absurd List.mem_cons_self hruns.begun
      | cons word more =>
          have htakes : Takes fits [word] more := by
            intro start hstart hne
            refine hruns.fitted _ List.mem_cons_self (word :: start)
              (List.cons_prefix_cons.mpr ⟨rfl, hstart⟩) ?_
            exact Nat.succ_le_succ (List.length_pos_iff.mpr hne)
          have hlater : runs = greedyRuns fits runs.flatten :=
            ih ⟨rfl, fun hmem => hruns.begun (List.mem_cons_of_mem _ hmem),
              fun run hrun => hruns.fitted run (List.mem_cons_of_mem _ hrun), hruns.full.tail⟩
          rw [← hruns.flatten_eq, List.flatten_cons, List.cons_append, greedyRuns,
            fillRuns_append htakes]
          cases runs with
          | nil => rfl
          | cons next runs =>
              obtain ⟨first, hfirst, hover⟩ := hruns.full.rel_head? rfl
              obtain ⟨later, rfl⟩ : ∃ later, next = first :: later :=
                ⟨next.tail, (List.cons_head?_tail hfirst).symm⟩
              change _ = fillRuns fits (word :: more) (first :: (later ++ runs.flatten))
              rw [fillRuns, if_neg (Bool.eq_false_iff.mp hover)]
              exact congrArg ((word :: more) :: ·) hlater

/-- The lines hold the words of the part with a space between each two, each line fitted at every
word that it took after its first, and no line fits with the first word of the next one. A part
without words is one empty line. -/
structure FilledGreedily (fits : List Char → Bool) (part : List Char)
    (lines : List (List Char)) : Prop where
  words_eq : lines.flatMap words = words part
  spaced : ∀ line ∈ lines, joinWords (words line) = line
  empty : words part = [] → lines = [[]]
  begun : words part ≠ [] → [] ∉ lines
  fitted : ∀ line ∈ lines, ∀ start, start <+: words line → 2 ≤ start.length →
    fits (joinWords start) = true
  full : lines.IsChain fun line next =>
    ∃ word ∈ (words next).head?, fits (line ++ ' ' :: word) = false

theorem wrapPart_of_words {part : List Char} (hwords : words part ≠ []) :
    wrapPart fits part = (greedyRuns fits (words part)).map joinWords := by
  obtain ⟨word, rest, hwords⟩ := List.exists_cons_of_ne_nil hwords
  have hlines : fillLines fits (joinWords [word]) rest =
      (fillRuns fits [word] rest).map joinWords :=
    fillLines_joinWords (List.cons_ne_nil word []) rest
  rw [joinWords_singleton] at hlines
  rw [wrapPart, hwords]
  exact hlines

theorem words_joinWords_greedyRuns {part : List Char}
    (hrun : run ∈ greedyRuns fits (words part)) : words (joinWords run) = run := by
  refine words_joinWords fun word hword => ?_
  have hmem : word ∈ (greedyRuns fits (words part)).flatten :=
    List.mem_flatten.mpr ⟨run, hrun, hword⟩
  rw [(greedyRuns_spec fits (words part)).flatten_eq] at hmem
  exact isWord_of_mem_words hmem

theorem filledGreedily_wrapPart (fits : List Char → Bool) (part : List Char) :
    FilledGreedily fits part (wrapPart fits part) := by
  by_cases hwords : words part = []
  · rw [wrapPart, hwords]
    exact
      { words_eq := hwords.symm
        spaced := List.forall_mem_singleton.mpr rfl
        empty := fun _ => rfl
        begun := fun hsome => absurd hwords hsome
        fitted := List.forall_mem_singleton.mpr fun start hstart htwo => by
          rw [List.prefix_nil.mp hstart] at htwo
          exact absurd htwo (Nat.not_succ_le_zero 1)
        full := .singleton _ }
  have hspec := greedyRuns_spec fits (words part)
  have hread : ∀ run ∈ greedyRuns fits (words part), words (joinWords run) = run :=
    fun run hrun => words_joinWords_greedyRuns hrun
  rw [wrapPart_of_words hwords]
  refine ⟨?_, List.forall_mem_map.mpr fun run hrun => ?_, fun hnone => absurd hnone hwords,
    fun _ hmem => ?_, List.forall_mem_map.mpr fun run hrun => ?_, (List.isChain_map _).mpr ?_⟩
  · rw [List.flatMap_map, List.flatMap_def, List.map_congr_left hread, List.map_id',
      hspec.flatten_eq]
  · rw [hread run hrun]
  · obtain ⟨run, hrun, hempty⟩ := List.mem_map.mp hmem
    have hnil : run = [] := by
      rw [← hread run hrun, hempty]
      rfl
    exact hspec.begun (hnil ▸ hrun)
  · rw [hread run hrun]
    exact hspec.fitted run hrun
  · refine hspec.full.imp_of_mem_imp fun run next hrun hnext hover => ?_
    obtain ⟨word, hword, hover⟩ := hover
    rw [joinWords_concat (ne_of_mem_of_not_mem hrun hspec.begun)] at hover
    exact ⟨word, by rwa [hread next hnext], hover⟩

theorem FilledGreedily.eq_wrapPart {part : List Char} {lines : List (List Char)}
    (hfilled : FilledGreedily fits part lines) : lines = wrapPart fits part := by
  by_cases hwords : words part = []
  · rw [hfilled.empty hwords, wrapPart, hwords]
  have hjoined : (lines.map words).map joinWords = lines := by
    rw [List.map_map]
    exact (List.map_congr_left hfilled.spaced).trans (List.map_id _)
  have hsome : ∀ line ∈ lines, words line ≠ [] := by
    intro line hline hnone
    have hempty : [] = line := by
      rw [← hfilled.spaced line hline, hnone]
      rfl
    exact hfilled.begun hwords (hempty ▸ hline)
  have hruns : GreedyRuns fits (words part) (lines.map words) := by
    refine ⟨?_, fun hmem => ?_, List.forall_mem_map.mpr hfilled.fitted,
      (List.isChain_map _).mpr ?_⟩
    · rw [← hfilled.words_eq, List.flatMap_def]
    · obtain ⟨line, hline, hnone⟩ := List.mem_map.mp hmem
      exact hsome line hline hnone
    · refine hfilled.full.imp_of_mem_imp fun line next hline hnext hover => ?_
      obtain ⟨word, hword, hover⟩ := hover
      rw [← hfilled.spaced line hline] at hover
      exact ⟨word, hword, by rwa [joinWords_concat (hsome line hline)]⟩
  rw [wrapPart_of_words hwords, ← hruns.eq_greedyRuns, hjoined]

theorem filledGreedily_iff {part : List Char} {lines : List (List Char)} :
    FilledGreedily fits part lines ↔ wrapPart fits part = lines := by
  constructor
  · exact fun hfilled => hfilled.eq_wrapPart.symm
  · rintro rfl
    exact filledGreedily_wrapPart fits part

section

variable {α : Type} [Scale α] [OrderedScale α]

theorem isLargest_stackLines (measure : String → TextStyle α → TextMetrics α)
    (style : TextStyle α) (lines : List String) :
    IsLargest (0.0 :: lines.map fun line => (measure line style).width)
      (stackLines measure style lines).width := by
  have hlargest := isLargest_foldl OrderedScale.isNumber_zero
    (lines.map fun line => (measure line style).width)
  rw [List.foldl_map] at hlargest
  change IsLargest _ (List.foldl _ 0.0 (lines.map _))
  rwa [List.foldl_map]

/-- **Greedy wrapping.** The lines of a wrapped text are those of its parts between breaks, and in
every part they are the only ones that are filled greedily. The wrapped text is said to have as
many lines as it has, and to be as wide as the widest of them, but no less than nothing. -/
theorem wrapLines_greedy (measure : String → TextStyle α → TextMetrics α) (text : String)
    (style : TextStyle α) (maxWidth : α) :
    (∃ parts, wrapLines measure text style maxWidth = parts.flatten.map String.ofList ∧
      List.Forall₂ (FilledGreedily (fitsWidth measure style maxWidth))
        (splitBreaks text.toList) parts ∧
      ∀ others, List.Forall₂ (FilledGreedily (fitsWidth measure style maxWidth))
        (splitBreaks text.toList) others → others = parts) ∧
      ((Measurer.greedy measure).measureWrapped text style maxWidth).lineCount =
        (wrapLines measure text style maxWidth).length ∧
      IsLargest (0.0 :: (wrapLines measure text style maxWidth).map fun line =>
          (measure line style).width)
        ((Measurer.greedy measure).measureWrapped text style maxWidth).width := by
  have hunique (others : List (List (List Char))) :
      List.Forall₂ (FilledGreedily (fitsWidth measure style maxWidth))
          (splitBreaks text.toList) others ↔
        (splitBreaks text.toList).map (wrapPart (fitsWidth measure style maxWidth)) = others := by
    rw [← List.forall₂_eq_eq_eq, List.forall₂_map_left_iff]
    exact ⟨.imp fun _ _ => filledGreedily_iff.mp, .imp fun _ _ => filledGreedily_iff.mpr⟩
  refine ⟨⟨_, ?_, (hunique _).mpr rfl, fun others hothers => ((hunique _).mp hothers).symm⟩, rfl,
    isLargest_stackLines measure style _⟩
  rw [wrapLines, List.flatMap_def]

/-- Widths that are no numbers for texts of one character. -/
def unevenMeasure (text : String) (style : TextStyle Float) : TextMetrics Float :=
  { width := if text.length = 1 then 0.0 / 0.0 else style.fontSize * Float.ofNat text.length
    height := style.fontSize
    lineCount := 1 }

def plainStyle : TextStyle Float :=
  { fontFamily := none, fontSize := 16.0, fontWeight := none }

/-- The width of a wrapped text is a number although one of its lines has none. -/
theorem uneven_wrapLines_greedy :
    ((Measurer.greedy unevenMeasure).measureWrapped "a bc<br>d" plainStyle 80.0).lineCount =
        (wrapLines unevenMeasure "a bc<br>d" plainStyle 80.0).length ∧
      IsLargest (0.0 :: (wrapLines unevenMeasure "a bc<br>d" plainStyle 80.0).map fun line =>
          (unevenMeasure line plainStyle).width)
        ((Measurer.greedy unevenMeasure).measureWrapped "a bc<br>d" plainStyle 80.0).width :=
  (wrapLines_greedy unevenMeasure "a bc<br>d" plainStyle 80.0).2

end

end SequenceChart
