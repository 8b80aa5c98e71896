import SequenceChart.Grammar.Script
import SequenceChart.Proofs.Spelling

/-!
# Printed texts

How statements are written down. Keywords stand in letters of any case, blanks stand freely around
the parts of a statement, and statements are kept apart by line breaks, semicolons and comments.
-/

namespace SequenceChart

theorem dropBlanks_eq_nil {text : List Char} (hblank : ∀ char ∈ text, isBlank char = true) :
    dropBlanks text = [] := by
  rw [← List.append_nil text, dropBlanks, List.dropWhile_append_of_pos hblank]
  rfl

theorem dropEndBlanks_append {text blanks : List Char}
    (hblank : ∀ char ∈ blanks, isBlank char = true) :
    dropEndBlanks (text ++ blanks) = dropEndBlanks text := by
  unfold dropEndBlanks
  rw [List.reverse_append, List.dropWhile_append_of_pos]
  intro char hchar
  exact hblank char (List.mem_reverse.mp hchar)

theorem trim_append_blanks {text blanks : List Char}
    (hblank : ∀ char ∈ blanks, isBlank char = true) : trim (text ++ blanks) = trim text := by
  unfold trim
  by_cases hempty : dropBlanks text = []
  · rw [hempty, dropBlanks, List.dropWhile_append]
    change dropEndBlanks (if (dropBlanks text).isEmpty then dropBlanks blanks else _) = _
    rw [hempty, dropBlanks_eq_nil hblank]
    rfl
  · rw [dropBlanks, List.dropWhile_append]
    change dropEndBlanks (if (dropBlanks text).isEmpty then _ else dropBlanks text ++ blanks) = _
    rw [if_neg (by simpa using hempty), dropEndBlanks_append hblank]

theorem trim_blanks_append {text blanks : List Char}
    (hblank : ∀ char ∈ blanks, isBlank char = true) : trim (blanks ++ text) = trim text := by
  unfold trim dropBlanks
  rw [List.dropWhile_append_of_pos hblank]

theorem head?_dropBlanks {text : List Char} {char : Char}
    (hhead : (dropBlanks text).head? = some char) : isBlank char = false := by
  have hnot := List.head?_dropWhile_not isBlank text
  unfold dropBlanks at hhead
  rw [hhead] at hnot
  simpa using hnot

theorem head?_trim {text : List Char} {char : Char} (hhead : (trim text).head? = some char) :
    isBlank char = false := by
  have hprefix : dropEndBlanks (dropBlanks text) <+: dropBlanks text := by
    rw [← List.reverse_suffix, dropEndBlanks, List.reverse_reverse]
    exact List.dropWhile_suffix _
  obtain ⟨rest, hrest⟩ := hprefix
  have hfirst : (dropBlanks text).head? = some char := by
    rw [← hrest, List.head?_append]
    exact (congrArg (Option.or · rest.head?) hhead).trans rfl
  exact head?_dropBlanks hfirst

theorem dropBlanks_eq_self {text : List Char}
    (hhead : ∀ char, text.head? = some char → isBlank char = false) : dropBlanks text = text := by
  cases text with
  | nil => rfl
  | cons char rest => rw [dropBlanks, List.dropWhile_cons_of_neg (by simp [hhead char rfl])]

theorem dropBlanks_dropBlanks (text : List Char) :
    dropBlanks (dropBlanks text) = dropBlanks text :=
  dropBlanks_eq_self fun _ hhead => head?_dropBlanks hhead

theorem trim_trim (text : List Char) : trim (trim text) = trim text := by
  have hstart : dropBlanks (trim text) = trim text :=
    dropBlanks_eq_self fun _ hhead => head?_trim hhead
  have hend : dropEndBlanks (trim text) = trim text := by
    simp only [trim, dropEndBlanks, List.reverse_reverse]
    exact congrArg List.reverse (dropBlanks_dropBlanks _)
  rw [trim, hstart, hend]

theorem dropBlanks_eq_self_of_trim {text : List Char} (htrim : trim text = text) :
    dropBlanks text = text :=
  dropBlanks_eq_self fun _ hhead => head?_trim (htrim.symm ▸ hhead)

theorem dropEndBlanks_eq_self_of_trim {text : List Char} (htrim : trim text = text) :
    dropEndBlanks text = text := by
  calc
    dropEndBlanks text = trim text := by rw [trim, dropBlanks_eq_self_of_trim htrim]
    _ = text := htrim

/-- Blanks between two texts are kept. -/
theorem trim_append_append {left right : List Char} (hleft : trim left = left)
    (hright : trim right = right) (hleft_ne : left ≠ []) (hright_ne : right ≠ [])
    (middle : List Char) : trim (left ++ middle ++ right) = left ++ middle ++ right := by
  have hstart : dropBlanks (left ++ middle ++ right) = left ++ middle ++ right := by
    obtain ⟨first, more, rfl⟩ := List.exists_cons_of_ne_nil hleft_ne
    refine dropBlanks_eq_self fun char hhead => ?_
    exact @head?_trim (first :: more) char (hleft.symm ▸ hhead)
  have hreverse : right.reverse.dropWhile isBlank = right.reverse := by
    have hend := congrArg List.reverse (dropEndBlanks_eq_self_of_trim hright)
    rwa [dropEndBlanks, List.reverse_reverse] at hend
  rw [trim, hstart, dropEndBlanks, List.reverse_append, List.dropWhile_append, hreverse,
    if_neg (by simpa using hright_ne), ← List.reverse_append, List.reverse_reverse]

/-- Blanks within a line. -/
def Spacing (pad : List Char) : Prop :=
  ∀ char ∈ pad, isIndent char = true

instance (pad : List Char) : Decidable (Spacing pad) :=
  decidable_of_iff (pad.all isIndent = true) List.all_eq_true

theorem Spacing.nil : Spacing [] :=
  nofun

theorem Spacing.append {left right : List Char} (hleft : Spacing left) (hright : Spacing right) :
    Spacing (left ++ right) :=
  fun char hchar => (List.mem_append.mp hchar).elim (hleft char) (hright char)

/-- A text that stands at the end of a statement. -/
structure PlainText (text : String) : Prop where
  trim_eq : trim text.toList = text.toList
  plain : ∀ char ∈ text.toList, char ∉ ['\n', ';', '#']
  noPercents : ¬['%', '%'] <:+: text.toList

/-- The name of an actor. It does not start with a keyword that ends there. -/
structure PlainName (name : String) : Prop where
  ne_empty : name ≠ ""
  trim_eq : trim name.toList = name.toList
  plain : ∀ char ∈ name.toList, char ∉ ['\n', ';', ',', ':', '+', '>', '#']
  noPercents : ¬['%', '%'] <:+: name.toList
  head?_ne : name.toList.head? ≠ some '-'
  getLast?_ne : name.toList.getLast? ≠ some '-'
  noArrow : ∀ char ∈ ['-', '>', 'x'], ¬['-', char] <:+: name.toList
  noKeyword : ∀ (keyword : Keyword) word rest, name.toList = word ++ rest →
    Spells keyword.word word →
      ∃ char more, rest = char :: more ∧ isIndent char = false ∧ char ≠ '\x7b'

theorem PlainName.singleton {char : Char} (hblank : isBlank char = false)
    (hplain : char ∉ ['\n', ';', ',', ':', '+', '>', '#', '-']) :
    PlainName (String.ofList [char]) := by
  simp only [List.mem_cons, List.not_mem_nil, or_false, not_or] at hplain
  have htext : (String.ofList [char]).toList = [char] := String.toList_ofList
  have hpair : ∀ left right, ¬[left, right] <:+: [char] := by
    intro left right hinfix
    have := hinfix.length_le
    simp at this
  refine ⟨by simp, ?_, ?_, ?_, ?_, ?_, ?_, ?_⟩ <;> rw [htext]
  · simp [trim, dropBlanks, dropEndBlanks, hblank]
  · simp [hplain]
  · exact hpair _ _
  · simp [hplain]
  · simp [hplain]
  · exact fun _ _ => hpair _ _
  · intro keyword word rest hcut hspells
    have hlength := congrArg List.length hcut
    have := keyword.three_le_length
    rw [List.length_append, hspells.length_eq] at hlength
    simp at hlength
    omega

/-- The two ways in which a comment starts. -/
def startsComment (text : List Char) : Prop :=
  ['#'] <+: text ∨ ['%', '%'] <+: text

structure Remark (text : List Char) : Prop where
  starts : startsComment text
  noBreak : '\n' ∉ text

/-- What stands between two statements. -/
inductive Gap : List Char → Prop
  | nil : Gap []
  | blank {char : Char} {rest : List Char} (hchar : isIndent char = true ∨ char = '\n' ∨ char = ';')
      (hrest : Gap rest) : Gap (char :: rest)
  | remark {text rest : List Char} (hremark : Remark text) (hrest : Gap rest) :
      Gap (text ++ '\n' :: rest)

/-- Behind `text` and the blanks `pad` the statement ends, and `tail` begins with what ends it. -/
structure Apart (text pad tail : List Char) : Prop where
  ends : tail = [] ∨ ['\n'] <+: tail ∨ [';'] <+: tail ∨ startsComment tail
  percent : pad = [] → text.getLast? = some '%' → tail.head? ≠ some '%'

/-- A comment right behind a word would make it no word. -/
structure Detached (text pad tail : List Char) : Prop extends Apart text pad tail where
  word : pad = [] → (∀ char ∈ text, char ∉ marks) → ¬startsComment tail

/-- The words that place a note. -/
inductive PrintedPlacement : NotePlacement → List Char → Prop
  | leftOf {side pad word : List Char} (hside : Spells "left" side) (hpad : Spacing pad)
      (hne : pad ≠ []) (hword : Spells "of" word) : PrintedPlacement .leftOf (side ++ pad ++ word)
  | rightOf {side pad word : List Char} (hside : Spells "right" side) (hpad : Spacing pad)
      (hne : pad ≠ []) (hword : Spells "of" word) : PrintedPlacement .rightOf (side ++ pad ++ word)
  | across {word : List Char} (hword : Spells "over" word) : PrintedPlacement .across word

inductive PrintedActors : String → Option String → List Char → Prop
  | one {name : String} (hname : PlainName name) : PrintedActors name none name.toList
  | two {first second : String} {before after : List Char} (hfirst : PlainName first)
      (hbefore : Spacing before) (hafter : Spacing after) (hsecond : PlainName second) :
      PrintedActors first (some second)
        (first.toList ++ before ++ [','] ++ after ++ second.toList)

/-- A text behind a colon. -/
inductive PrintedText : String → List Char → Prop
  | marked {text : String} {before after : List Char} (hbefore : Spacing before)
      (hafter : Spacing after) (htext : PlainText text) :
      PrintedText text (before ++ [':'] ++ after ++ text.toList)

/-- A label behind a keyword. An empty one leaves no trace. -/
inductive PrintedLabel : String → List Char → Prop
  | empty : PrintedLabel "" []
  | spaced {label : String} {pad : List Char} (hpad : Spacing pad) (hne : pad ≠ [])
      (hlabel : PlainText label) : PrintedLabel label (pad ++ label.toList)

inductive PrintedName : String → List Char → Prop
  | spaced {name : String} {pad : List Char} (hpad : Spacing pad) (hne : pad ≠ [])
      (hname : PlainName name) : PrintedName name (pad ++ name.toList)

inductive PrintedAlias : Option String → List Char → Prop
  | none : PrintedAlias none []
  | some {label : String} {before word after : List Char} (hbefore : Spacing before)
      (hbefore_ne : before ≠ []) (hword : Spells "as" word) (hafter : Spacing after)
      (hafter_ne : after ≠ []) (hlabel : PlainText label) (hlabel_ne : label ≠ "") :
      PrintedAlias (some label) (before ++ word ++ after ++ label.toList)

def signOf : Option ActivationEdge → List Char
  | none => []
  | some .start => ['+']
  | some .stop => ['-']

inductive Printed : Statement → List Char → Prop
  | declare {role : ActorRole} {id : String} {label : Option String} {word name rest : List Char}
      (hword : Spells role.name word) (hname : PrintedName id name)
      (hid : ∀ char ∈ id.toList, isBlank char = false) (hrest : PrintedAlias label rest) :
      Printed (.declare role id label) (word ++ name ++ rest)
  | autonumber {word : List Char} (hword : Spells "autonumber" word) : Printed .autonumber word
  | title {text : String} {word rest : List Char} (hword : Spells "title" word)
      (hrest : PrintedText text rest) : Printed (.title text) (word ++ rest)
  | accTitle {text : String} {word rest : List Char} (hword : Spells "accTitle" word)
      (hrest : PrintedText text rest) : Printed (.accTitle text) (word ++ rest)
  | accDescription {text : String} {word rest : List Char} (hword : Spells "accDescr" word)
      (hrest : PrintedText text rest) : Printed (.accDescription text) (word ++ rest)
  | activate {actor : String} {word name : List Char} (hword : Spells "activate" word)
      (hname : PrintedName actor name) : Printed (.activate actor) (word ++ name)
  | deactivate {actor : String} {word name : List Char} (hword : Spells "deactivate" word)
      (hname : PrintedName actor name) : Printed (.deactivate actor) (word ++ name)
  | note {placement : NotePlacement} {first : String} {second : Option String} {text : String}
      {word before place after actors rest : List Char} (hword : Spells "note" word)
      (hbefore : Spacing before) (hbefore_ne : before ≠ [])
      (hplace : PrintedPlacement placement place) (hafter : Spacing after) (hafter_ne : after ≠ [])
      (hactors : PrintedActors first second actors) (hrest : PrintedText text rest) :
      Printed (.note placement first second text)
        (word ++ before ++ place ++ after ++ actors ++ rest)
  | opening {kind : BlockKind} {label : String} {word rest : List Char}
      (hword : Spells kind.name word) (hrest : PrintedLabel label rest) :
      Printed (.opening kind label) (word ++ rest)
  | divider {kind : SectionKind} {label : String} {word rest : List Char}
      (hword : Spells kind.word word) (hrest : PrintedLabel label rest) :
      Printed (.divider kind label) (word ++ rest)
  | closing {word : List Char} (hword : Spells "end" word) : Printed .closing word
  | message {source target : String} {kind : MessageKind} {edge : Option ActivationEdge}
      {text : String} {beforeArrow afterArrow afterSign rest : List Char}
      (hsource : PlainName source) (hbeforeArrow : Spacing beforeArrow)
      (hafterArrow : Spacing afterArrow) (hafterSign : Spacing afterSign)
      (htarget : PlainName target) (hrest : rest = [] ∧ text = "" ∨ PrintedText text rest) :
      Printed (.message source target kind edge text)
        (source.toList ++ beforeArrow ++ kind.arrow.toList ++ afterArrow ++ signOf edge ++
          afterSign ++ target.toList ++ rest)

/-- Statements, each after a gap. The last gap may end in a comment that takes no line break. -/
inductive PrintedTail : List Statement → List Char → Prop
  | done {gap remark : List Char} (hgap : Gap gap) (hremark : remark = [] ∨ Remark remark) :
      PrintedTail [] (gap ++ remark)
  | cons {statement : Statement} {later : List Statement} {gap text pad tail : List Char}
      (hgap : Gap gap) (htext : Printed statement text) (hpad : Spacing pad)
      (hdetached : Detached text pad tail) (htail : PrintedTail later tail) :
      PrintedTail (statement :: later) (gap ++ text ++ pad ++ tail)

/-- A whole diagram, from its header on. -/
inductive PrintedDiagram (statements : List Statement) : List Char → Prop
  | headed {gap header pad tail : List Char} (hgap : Gap gap)
      (hheader : Spells Script.headerWord header) (hpad : Spacing pad)
      (hdetached : Detached header pad tail) (htail : PrintedTail statements tail) :
      PrintedDiagram statements (gap ++ header ++ pad ++ tail)

end SequenceChart
