/-!
# Blanks

Blank characters, and texts without the blanks at their ends. A blank is any of the 25 characters
to which Unicode gives the property White_Space.
-/

namespace SequenceChart

def isBlank (char : Char) : Bool :=
  let code := char.toNat
  (9 ≤ code && code ≤ 13) || code == 0x20 || code == 0x85 || code == 0xA0 || code == 0x1680 ||
    (0x2000 ≤ code && code ≤ 0x200A) || code == 0x2028 || code == 0x2029 || code == 0x202F ||
    code == 0x205F || code == 0x3000

/-- No letter is blank. -/
theorem toLower_of_isBlank {char : Char} (hblank : isBlank char = true) : char.toLower = char := by
  unfold Char.toLower
  rw [dif_neg]
  rintro ⟨hge, hle⟩
  have hge : 65 ≤ char.toNat := hge
  have hle : char.toNat ≤ 90 := hle
  simp only [isBlank, Bool.or_eq_true, Bool.and_eq_true, decide_eq_true_eq, beq_iff_eq] at hblank
  omega

def dropBlanks (text : List Char) : List Char :=
  text.dropWhile isBlank

def dropEndBlanks (text : List Char) : List Char :=
  (text.reverse.dropWhile isBlank).reverse

/-- The text between its first and its last character that is not blank. -/
def trim (text : List Char) : List Char :=
  dropEndBlanks (dropBlanks text)

def trimmed (text : List Char) : String :=
  String.ofList (trim text)

/-- The maximal runs of characters that are not blank. -/
def words (text : List Char) : List (List Char) :=
  let (current, later) := text.foldr
    (fun char (current, later) =>
      if isBlank char then ([], if current.isEmpty then later else current :: later)
      else (char :: current, later))
    ([], [])
  if current.isEmpty then later else current :: later

end SequenceChart
