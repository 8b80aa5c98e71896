import SequenceChart.Text.Blank
import SequenceChart.Text.Position
import SequenceChart.Text.Search

/-!
# Cursors

A place in the code of a diagram: the text that is left, and the number of bytes before it. A cursor
leads to a later one if the text between them makes up the difference of both.
-/

namespace SequenceChart

structure Cursor where
  rest : List Char
  offset : Nat
  deriving DecidableEq, Repr

/-- A statement ends before a line break, a semicolon, a comment or the end of the text. -/
def endsStatement : List Char → Bool
  | [] => true
  | '\n' :: _ | ';' :: _ | '#' :: _ => true
  | '%' :: '%' :: _ => true
  | _ => false

def isIndent (char : Char) : Bool :=
  char == ' ' || char == '\t' || char == '\r'

/-- The number of blanks, separators and comments at the start of a text. A comment goes on to the
end of its line. -/
def blankLength (inComment : Bool) : List Char → Nat
  | [] => 0
  | '\n' :: rest => 1 + blankLength false rest
  | char :: rest =>
      if inComment then 1 + blankLength true rest
      else if isIndent char || char == ';' then 1 + blankLength false rest
      else if char == '#' || (char == '%' && rest.head? == some '%') then 1 + blankLength true rest
      else 0

namespace Cursor

def ofText (text : List Char) : Cursor :=
  { rest := text, offset := 0 }

def skip (cursor : Cursor) (count : Nat) : Cursor :=
  { rest := cursor.rest.drop count
    offset := cursor.offset + byteLength (cursor.rest.take count) }

def skipIndent (cursor : Cursor) : Cursor :=
  cursor.skip (cursor.rest.takeWhile isIndent).length

def skipBlank (cursor : Cursor) : Cursor :=
  cursor.skip (blankLength false cursor.rest)

/-- The rest of the line, to be shown in a complaint. -/
def excerpt (cursor : Cursor) : String :=
  trimmed (cursor.rest.takeWhile (· != '\n'))

/-- Steps over a word if it comes next and `follows` holds of the text after it. -/
def skipWord? (cursor : Cursor) (follows : List Char → Bool) (word : String) : Option Cursor :=
  match dropWord? word.toList cursor.rest with
  | some rest => if follows rest then some (cursor.skip word.length) else none
  | none => none

def Leads (cursor later : Cursor) : Prop :=
  ∃ passed, cursor.rest = passed ++ later.rest ∧
    later.offset = cursor.offset + byteLength passed

theorem Leads.refl (cursor : Cursor) : cursor.Leads cursor :=
  ⟨[], by simp [byteLength]⟩

theorem Leads.trans {first second third : Cursor} (hfirst : first.Leads second)
    (hsecond : second.Leads third) : first.Leads third := by
  obtain ⟨early, hrest, hoffset⟩ := hfirst
  obtain ⟨late, hrest', hoffset'⟩ := hsecond
  refine ⟨early ++ late, ?_, ?_⟩
  · rw [hrest, hrest', List.append_assoc]
  · rw [hoffset', hoffset, byteLength_append, Nat.add_assoc]

theorem Leads.length_le {cursor later : Cursor} (hleads : cursor.Leads later) :
    later.rest.length ≤ cursor.rest.length := by
  obtain ⟨passed, hrest, _⟩ := hleads
  rw [hrest, List.length_append]
  exact Nat.le_add_left _ _

theorem leads_skip (cursor : Cursor) (count : Nat) : cursor.Leads (cursor.skip count) :=
  ⟨cursor.rest.take count, (List.take_append_drop count cursor.rest).symm, rfl⟩

theorem leads_skipIndent (cursor : Cursor) : cursor.Leads cursor.skipIndent :=
  cursor.leads_skip _

theorem leads_skipBlank (cursor : Cursor) : cursor.Leads cursor.skipBlank :=
  cursor.leads_skip _

theorem length_skip_lt (cursor : Cursor) {count : Nat} (hcount : 0 < count)
    (hrest : cursor.rest ≠ []) : (cursor.skip count).rest.length < cursor.rest.length := by
  have := List.length_pos_iff.mpr hrest
  simp only [skip, List.length_drop]
  omega

end Cursor

end SequenceChart
