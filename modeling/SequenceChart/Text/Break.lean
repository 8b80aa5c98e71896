/-!
# Line breaks in texts

Line breaks are made uniform before a source is read. The text of a label is broken by tags: `<br>`
in letters of any case, with ASCII spaces and a slash allowed before the closing bracket. A text
without tags is one line.
-/

namespace SequenceChart

/-- Turns every line break of a text into a line feed. -/
def unifyLineBreaks : List Char → List Char
  | [] => []
  | '\r' :: '\n' :: rest => '\n' :: unifyLineBreaks rest
  | '\r' :: rest => '\n' :: unifyLineBreaks rest
  | char :: rest => char :: unifyLineBreaks rest

def isTagSpace (char : Char) : Bool :=
  char == ' ' || char == '\t' || char == '\n' || char == '\x0c' || char == '\r'

def closeTag? : List Char → Option (List Char)
  | '/' :: '>' :: rest | '>' :: rest => some rest
  | _ => none

/-- What follows a break tag at the start of a text. -/
def afterBreak? : List Char → Option (List Char)
  | '<' :: first :: second :: rest =>
      if first.toLower = 'b' ∧ second.toLower = 'r' then closeTag? (rest.dropWhile isTagSpace)
      else none
  | _ => none

theorem length_lt_of_closeTag? {text rest : List Char} (hclose : closeTag? text = some rest) :
    rest.length < text.length := by
  unfold closeTag? at hclose
  split at hclose
  · rw [← Option.some.inj hclose, List.length_cons, List.length_cons]
    omega
  · rw [← Option.some.inj hclose, List.length_cons]
    omega
  · simp at hclose

theorem length_lt_of_afterBreak? {text rest : List Char} (hbreak : afterBreak? text = some rest) :
    rest.length < text.length := by
  unfold afterBreak? at hbreak
  split at hbreak
  · rename_i tail
    split at hbreak
    · have hlt := length_lt_of_closeTag? hbreak
      have hle := (List.dropWhile_sublist isTagSpace (l := tail)).length_le
      simp only [List.length_cons]
      omega
    · simp at hbreak
  · simp at hbreak

/-- Puts a character in front of the first line. -/
def consLine (char : Char) : List (List Char) → List (List Char)
  | [] => [[char]]
  | line :: rest => (char :: line) :: rest

/-- The parts of a text between its break tags, of which each begins as early as possible. -/
def splitBreaks (text : List Char) : List (List Char) :=
  match text with
  | [] => [[]]
  | char :: rest =>
      match _hbreak : afterBreak? (char :: rest) with
      | some after => [] :: splitBreaks after
      | none => consLine char (splitBreaks rest)
termination_by text.length
decreasing_by
  · exact length_lt_of_afterBreak? _hbreak
  · simp

def splitLineFeeds : List Char → List (List Char)
  | [] => [[]]
  | char :: rest =>
      if char = '\n' then [] :: splitLineFeeds rest else consLine char (splitLineFeeds rest)

/-- The lines of a text, broken by tags and by line feeds. -/
def textLines (text : List Char) : List (List Char) :=
  (splitBreaks text).flatMap splitLineFeeds

end SequenceChart
