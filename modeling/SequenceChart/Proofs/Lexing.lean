import Mathlib.Data.List.TakeWhile
import SequenceChart.Proofs.Lines
import SequenceChart.Proofs.Switches

/-!
# Tokens and the space between them

A JSON text is a row of tokens with spaces between them. What is read as a token depends on nothing
behind it, but for a number, which ends where the next character cannot belong to it. So the tokens
stay the same when the spaces change: when line breaks are made uniform, none of which stands inside
a token, and when the text is trimmed.
-/

namespace SequenceChart

/-- A character that numbers are written with. -/
def isNumeralChar (char : Char) : Bool :=
  char.isDigit || char == '.' || char == '-' || char == '+' || char == 'e' || char == 'E'

theorem not_isBlank_of_isNumeralChar {char : Char} (hnumeral : isNumeralChar char = true) :
    isBlank char = false := by
  simp only [isNumeralChar, Bool.or_eq_true, beq_iff_eq] at hnumeral
  rcases hnumeral with ((((hdigit | rfl) | rfl) | rfl) | rfl) | rfl
  · rw [Bool.eq_false_iff]
    intro hblank
    have hname := Directive.isNameChar_of_isBlank hblank
    simp [isNameChar, Char.isAlphanum, hdigit] at hname
  all_goals rfl

/-- A number that stands before one of the texts can stand before the other. -/
def SameStart (text other : List Char) : Prop :=
  text.head?.filter isNumeralChar = other.head?.filter isNumeralChar

theorem SameStart.trans {first second third : List Char} (hfirst : SameStart first second)
    (hsecond : SameStart second third) : SameStart first third :=
  Eq.trans hfirst hsecond

theorem SameStart.append {rest other : List Char} (hsame : SameStart rest other)
    (chunk : List Char) : SameStart (chunk ++ rest) (chunk ++ other) := by
  cases chunk with
  | nil => exact hsame
  | cons char chunk => rfl

theorem SameStart.head?_eq {text other : List Char} (hsame : SameStart text other) {char : Char}
    (hnumeral : isNumeralChar char = true) (hhead : other.head? = some char) :
    text.head? = some char := by
  unfold SameStart at hsame
  rw [hhead, Option.filter_some_pos hnumeral] at hsame
  exact (Option.filter_eq_some_iff.mp hsame).1

/-- What is read is decided by the characters that are read away, and by where the text goes on. -/
def ReadsLocally {α : Type} (read? : List Char → Option (α × List Char)) : Prop :=
  ∀ text value rest, read? text = some (value, rest) →
    ∃ chunk, text = chunk ++ rest ∧ (∀ char ∈ chunk, isNumeralChar char = true) ∧
      ∀ other, SameStart rest other → read? (chunk ++ other) = some (value, other)

namespace ReadsLocally

variable {α β : Type}

theorem none : ReadsLocally fun _ : List Char => (Option.none : Option (α × List Char)) := by
  intro text value rest hread
  cases hread

theorem pure (value : α) : ReadsLocally fun text : List Char => some (value, text) := by
  intro text result rest hread
  obtain ⟨rfl, rfl⟩ := Prod.mk.inj (Option.some.inj hread)
  exact ⟨[], rfl, nofun, fun other _ => rfl⟩

theorem bind {first : List Char → Option (α × List Char)}
    {next : α → List Char → Option (β × List Char)} (hfirst : ReadsLocally first)
    (hnext : ∀ value, ReadsLocally (next value)) :
    ReadsLocally fun text => (first text).bind fun found => next found.1 found.2 := by
  intro text result rest hread
  obtain ⟨⟨value, middle⟩, hvalue, hresult⟩ := Option.bind_eq_some_iff.mp hread
  obtain ⟨chunk, rfl, hchunk, hchunkRead⟩ := hfirst text value middle hvalue
  obtain ⟨later, rfl, hlater, hlaterRead⟩ := hnext value middle result rest hresult
  refine ⟨chunk ++ later, (List.append_assoc ..).symm, List.forall_mem_append.mpr ⟨hchunk, hlater⟩,
    ?_⟩
  intro other hother
  rw [List.append_assoc]
  exact Option.bind_eq_some_iff.mpr
    ⟨(value, later ++ other), hchunkRead _ (hother.append later), hlaterRead other hother⟩

theorem map {first : List Char → Option (α × List Char)} (hfirst : ReadsLocally first)
    (change : α → β) :
    ReadsLocally fun text => (first text).map fun found => (change found.1, found.2) := by
  have hbind := hfirst.bind fun value => pure (change value)
  intro text result rest hread
  obtain ⟨chunk, htext, hchunk, hchunkRead⟩ := hbind text result rest
    (Option.map_eq_bind.symm.trans hread)
  refine ⟨chunk, htext, hchunk, ?_⟩
  intro other hother
  exact Option.map_eq_bind.trans (hchunkRead other hother)

/-- A part of a number that may be absent begins with characters of its own. -/
theorem optional {read? : List Char → Option (α × List Char)} (absent : α) (leads : Char → Bool)
    (readTail? : Char → List Char → Option (α × List Char))
    (hnumeral : ∀ char, leads char = true → isNumeralChar char = true)
    (htail : ∀ char, leads char = true → ReadsLocally (readTail? char))
    (hpresent : ∀ char tail, leads char = true → read? (char :: tail) = readTail? char tail)
    (habsent : ∀ text : List Char, (∀ char, text.head? = some char → leads char = false) →
      read? text = some (absent, text)) : ReadsLocally read? := by
  intro text value rest hread
  by_cases hleads : ∃ char tail, text = char :: tail ∧ leads char = true
  · obtain ⟨char, tail, rfl, hchar⟩ := hleads
    rw [hpresent char tail hchar] at hread
    obtain ⟨chunk, rfl, hchunk, hchunkRead⟩ := htail char hchar tail value rest hread
    refine ⟨char :: chunk, rfl, List.forall_mem_cons.mpr ⟨hnumeral char hchar, hchunk⟩, ?_⟩
    intro other hother
    rw [List.cons_append, hpresent char _ hchar]
    exact hchunkRead other hother
  · have hhead : ∀ char, text.head? = some char → leads char = false := by
      intro char hhead
      obtain ⟨tail, rfl⟩ := List.head?_eq_some_iff.mp hhead
      rw [Bool.eq_false_iff]
      intro hchar
      exact hleads ⟨char, tail, rfl, hchar⟩
    rw [habsent text hhead] at hread
    obtain ⟨rfl, rfl⟩ := Prod.mk.inj (Option.some.inj hread)
    refine ⟨[], rfl, nofun, ?_⟩
    intro other hother
    apply habsent other
    intro char hchar
    rw [Bool.eq_false_iff]
    intro hlead
    have htext := hother.head?_eq (hnumeral char hlead) hchar
    exact Bool.false_ne_true ((hhead char htext).symm.trans hlead)

end ReadsLocally

theorem readsLocally_readDigits? : ReadsLocally readDigits? := by
  intro text digits rest hread
  unfold readDigits? at hread
  split at hread
  · cases hread
  · rename_i hnonempty
    obtain ⟨rfl, rfl⟩ := Prod.mk.inj (Option.some.inj hread)
    have hdigits : ∀ char ∈ text.takeWhile Char.isDigit, char.isDigit = true :=
      List.all_eq_true.mp List.all_takeWhile
    refine ⟨text.takeWhile Char.isDigit, List.takeWhile_append_dropWhile.symm, ?_, ?_⟩
    · intro char hchar
      simp [isNumeralChar, hdigits char hchar]
    · intro other hother
      have hstops : ∀ char, other.head? = some char → ¬char.isDigit = true := by
        intro char hchar hdigit
        have hnumeral : isNumeralChar char = true := by
          simp [isNumeralChar, hdigit]
        have hfirst := List.head?_dropWhile_not Char.isDigit text
        rw [hother.head?_eq hnumeral hchar] at hfirst
        exact Bool.false_ne_true (hfirst.symm.trans hdigit)
      have hother : other.takeWhile Char.isDigit = [] ∧ other.dropWhile Char.isDigit = other := by
        cases other with
        | nil => exact ⟨rfl, rfl⟩
        | cons char other =>
            have hchar := hstops char rfl
            exact ⟨List.takeWhile_cons_of_neg hchar, List.dropWhile_cons_of_neg hchar⟩
      unfold readDigits?
      rw [List.takeWhile_append_of_pos hdigits, List.dropWhile_append_of_pos hdigits, hother.1,
        hother.2, List.append_nil]
      split
      · rename_i hnone
        exact absurd hnone hnonempty
      · rfl

theorem readsLocally_readMinus : ReadsLocally fun text => some (readMinus text) := by
  refine .optional false (· == '-') (fun _ tail => some (true, tail)) ?_ (fun _ _ => .pure true)
    ?_ ?_
  · intro char hchar
    rw [beq_iff_eq.mp hchar]
    rfl
  · intro char tail hchar
    rw [beq_iff_eq.mp hchar]
    rfl
  · intro text hhead
    unfold readMinus
    split
    · exact nomatch hhead '-' rfl
    · rfl

theorem readsLocally_readSign : ReadsLocally fun text => some (readSign text) := by
  refine .optional false (fun char => char == '-' || char == '+')
    (fun char tail => some (char == '-', tail)) ?_ (fun char _ => .pure (char == '-')) ?_ ?_
  · intro char hchar
    simp only [Bool.or_eq_true, beq_iff_eq] at hchar
    rcases hchar with rfl | rfl <;> rfl
  · intro char tail hchar
    simp only [Bool.or_eq_true, beq_iff_eq] at hchar
    rcases hchar with rfl | rfl <;> rfl
  · intro text hhead
    unfold readSign
    split
    · exact nomatch hhead '-' rfl
    · exact nomatch hhead '+' rfl
    · rfl

theorem readsLocally_readFraction? : ReadsLocally readFraction? := by
  refine .optional none (· == '.')
    (fun _ tail => (readDigits? tail).map fun found => (some found.1, found.2)) ?_
    (fun _ _ => readsLocally_readDigits?.map some) ?_ ?_
  · intro char hchar
    rw [beq_iff_eq.mp hchar]
    rfl
  · intro char tail hchar
    rw [beq_iff_eq.mp hchar]
    rfl
  · intro text hhead
    unfold readFraction?
    split
    · exact nomatch hhead '.' rfl
    · rfl

theorem readsLocally_readExponent? : ReadsLocally readExponent? := by
  refine .optional none (fun char => char == 'e' || char == 'E')
    (fun _ tail => (some (readSign tail)).bind fun sign =>
      (readDigits? sign.2).map fun found => (some (sign.1, found.1), found.2)) ?_ ?_ ?_ ?_
  · intro char hchar
    simp only [Bool.or_eq_true, beq_iff_eq] at hchar
    rcases hchar with rfl | rfl <;> rfl
  · intro _ _
    exact readsLocally_readSign.bind fun negative =>
      readsLocally_readDigits?.map fun digits => some (negative, digits)
  · intro char tail hchar
    simp only [Bool.or_eq_true, beq_iff_eq] at hchar
    rcases hchar with rfl | rfl <;> rfl
  · intro text hhead
    unfold readExponent?
    split
    · exact nomatch hhead 'e' rfl
    · exact nomatch hhead 'E' rfl
    · rfl

theorem Numeral.readsLocally : ReadsLocally Numeral.read? := by
  have hbehind (negative : Bool) (whole : List Char) :
      ReadsLocally fun text => if isPadded whole then none else
        (readFraction? text).bind fun fraction => (readExponent? fraction.2).map fun exponent =>
          (({ negative, whole, fraction := fraction.1, exponent := exponent.1 } : Numeral),
            exponent.2) := by
    split
    · exact .none
    · exact readsLocally_readFraction?.bind fun fraction =>
        readsLocally_readExponent?.map (Numeral.mk negative whole fraction)
  exact readsLocally_readMinus.bind fun negative =>
    readsLocally_readDigits?.bind fun whole => hbehind negative whole

theorem mem_of_mem_unifyLineBreaks {text : List Char} {char : Char}
    (hmem : char ∈ unifyLineBreaks text) : char ∈ text ∨ char = '\n' := by
  fun_induction unifyLineBreaks text with
  | case1 => exact .inl hmem
  | case2 rest ih =>
      rcases List.mem_cons.mp hmem with hbreak | hmem
      · exact .inr hbreak
      · exact (ih hmem).imp_left fun hrest =>
          List.mem_cons_of_mem _ (List.mem_cons_of_mem _ hrest)
  | case3 rest _ ih =>
      rcases List.mem_cons.mp hmem with hbreak | hmem
      · exact .inr hbreak
      · exact (ih hmem).imp_left (List.mem_cons_of_mem _)
  | case4 other rest _ _ ih =>
      rcases List.mem_cons.mp hmem with rfl | hmem
      · exact .inl List.mem_cons_self
      · exact (ih hmem).imp_left (List.mem_cons_of_mem _)

theorem unifyLineBreaks_append_of_notMem {left : List Char} (hreturn : '\r' ∉ left)
    (right : List Char) : unifyLineBreaks (left ++ right) = left ++ unifyLineBreaks right := by
  induction left with
  | nil => rfl
  | cons char left ih =>
      rw [List.mem_cons, not_or] at hreturn
      rw [List.cons_append, unifyLineBreaks_cons (Ne.symm hreturn.1), ih hreturn.2,
        List.cons_append]

/-- Only a carriage return and a line feed behind it belong together. -/
theorem unifyLineBreaks_append (left : List Char) {right : List Char}
    (hright : right.head? ≠ some '\n') :
    unifyLineBreaks (left ++ right) = unifyLineBreaks left ++ unifyLineBreaks right := by
  fun_induction unifyLineBreaks left with
  | case1 => rfl
  | case2 rest ih => exact congrArg (List.cons '\n') ih
  | case3 rest hrest ih =>
      rw [List.cons_append, unifyLineBreaks, ih]
      · rfl
      · intro more hmore
        cases rest with
        | nil =>
            rw [List.nil_append] at hmore
            rw [hmore] at hright
            exact hright rfl
        | cons char rest =>
            obtain ⟨rfl, -⟩ := List.cons.inj hmore
            exact hrest rest rfl
  | case4 char rest _ hreturn ih =>
      rw [List.cons_append, unifyLineBreaks_cons hreturn, ih]
      rfl

/-- Blanks before a character that is not blank stay. -/
theorem dropEndBlanks_append_of_last {left : List Char}
    (hlast : left.getLast?.any (!isBlank ·) = true) (right : List Char) :
    dropEndBlanks (left ++ right) = left ++ dropEndBlanks right := by
  have hleft : left.reverse.dropWhile isBlank = left.reverse := by
    apply dropBlanks_eq_self
    intro char hchar
    rw [List.head?_reverse] at hchar
    rw [hchar] at hlast
    simpa using hlast
  unfold dropEndBlanks
  rw [List.reverse_append, List.dropWhile_append, hleft]
  cases hright : right.reverse.dropWhile isBlank with
  | nil => simp
  | cons char rest => simp

theorem sameStart_unifyLineBreaks (text : List Char) :
    SameStart text (unifyLineBreaks text) := by
  fun_cases unifyLineBreaks text <;> rfl

namespace Json

theorem hexValue?_of_mem {digits : List Char} {value number : Nat}
    (hread : digits.foldlM (fun value digit => (16 * value + ·) <$> hexValue? digit) value =
      some number) : ∀ digit ∈ digits, (hexValue? digit).isSome := by
  induction digits generalizing value with
  | nil => exact List.forall_mem_nil _
  | cons digit digits ih =>
      rw [List.foldlM_cons] at hread
      obtain ⟨next, hnext, hrest⟩ := Option.bind_eq_some_iff.mp hread
      obtain ⟨held, hheld, -⟩ := Option.map_eq_some_iff.mp hnext
      rw [List.forall_mem_cons, hheld]
      exact ⟨rfl, ih hrest⟩

theorem consPart_eq_some_iff {part : Option StringPart}
    {parts : Option (List StringPart × List Char)} {all : List StringPart} {rest : List Char} :
    consPart part parts = some (all, rest) ↔
      ∃ first later, part = some first ∧ parts = some (later, rest) ∧ all = first :: later := by
  unfold consPart
  constructor
  · intro hcons
    split at hcons
    · rename_i first later left
      obtain ⟨rfl, rfl⟩ := Prod.mk.inj (Option.some.inj hcons)
      exact ⟨first, later, rfl, rfl, rfl⟩
    · cases hcons
  · rintro ⟨first, later, rfl, rfl, rfl⟩
    rfl

/-- A string is read up to its closing quote, and no carriage return stands inside. -/
theorem readString?_eq_some {text rest : List Char} {parts : List StringPart}
    (hread : readString? text = some (parts, rest)) :
    ∃ inner, text = inner ++ '"' :: rest ∧ '\r' ∉ inner ∧
      ∀ other, readString? (inner ++ '"' :: other) = some (parts, other) := by
  fun_induction readString? text generalizing parts rest with
  | case1 => cases hread
  | case2 tail =>
      obtain ⟨rfl, rfl⟩ := Prod.mk.inj (Option.some.inj hread)
      exact ⟨[], rfl, List.not_mem_nil, fun other => rfl⟩
  | case3 a b c d tail ih =>
      obtain ⟨first, later, hunit, htail, rfl⟩ := consPart_eq_some_iff.mp hread
      obtain ⟨inner, rfl, hinner, hinnerRead⟩ := ih htail
      obtain ⟨number, hnumber, -⟩ := Option.map_eq_some_iff.mp hunit
      refine ⟨'\\' :: 'u' :: a :: b :: c :: d :: inner, rfl, ?_, ?_⟩
      · have hdigits := hexValue?_of_mem hnumber
        have hreturn : '\r' ∉ [a, b, c, d] := fun hmem => absurd (hdigits '\r' hmem) (by decide)
        simp only [List.mem_cons, not_or] at hreturn ⊢
        exact ⟨by decide, by decide, hreturn.1, hreturn.2.1, hreturn.2.2.1, hreturn.2.2.2.1, hinner⟩
      · intro other
        exact consPart_eq_some_iff.mpr ⟨first, later, hunit, hinnerRead other, rfl⟩
  | case4 char tail hunicode ih =>
      obtain ⟨first, later, hescaped, htail, rfl⟩ := consPart_eq_some_iff.mp hread
      obtain ⟨inner, rfl, hinner, hinnerRead⟩ := ih htail
      obtain ⟨meant, hmeant, -⟩ := Option.map_eq_some_iff.mp hescaped
      refine ⟨'\\' :: char :: inner, rfl, ?_, ?_⟩
      · have hreturn : '\r' ≠ char := by
          rintro rfl
          cases hmeant
        simp only [List.mem_cons, not_or]
        exact ⟨by decide, hreturn, hinner⟩
      · intro other
        rw [List.cons_append, List.cons_append, readString?]
        · exact consPart_eq_some_iff.mpr ⟨first, later, hescaped, hinnerRead other, rfl⟩
        · rintro a b c d more rfl
          cases hmeant
  | case5 char tail hquote hunicode hescape ih =>
      obtain ⟨first, later, hplain, htail, rfl⟩ := consPart_eq_some_iff.mp hread
      obtain ⟨inner, rfl, hinner, hinnerRead⟩ := ih htail
      obtain ⟨kept, hkept, -⟩ := Option.map_eq_some_iff.mp hplain
      refine ⟨char :: inner, rfl, ?_, ?_⟩
      · have hreturn : '\r' ≠ char := by
          rintro rfl
          cases hkept
        simp only [List.mem_cons, not_or]
        exact ⟨hreturn, hinner⟩
      · intro other
        rw [List.cons_append, readString?]
        · exact consPart_eq_some_iff.mpr ⟨first, later, hplain, hinnerRead other, rfl⟩
        · exact hquote
        · rintro a b c d more rfl
          cases hkept
        · rintro next more rfl
          cases hkept

/-- The text neither starts nor ends with a blank, and has no carriage return. -/
structure Solid (chunk : List Char) : Prop where
  first : chunk.head?.any (!isBlank ·) = true
  last : chunk.getLast?.any (!isBlank ·) = true
  unbroken : '\r' ∉ chunk

theorem Solid.ne_nil {chunk : List Char} (hsolid : Solid chunk) : chunk ≠ [] := by
  rintro rfl
  exact nomatch hsolid.first

theorem Solid.of_not_blank {chunk : List Char} (hblank : ∀ char ∈ chunk, isBlank char = false)
    (hchunk : chunk ≠ []) : Solid chunk := by
  refine ⟨?_, ?_, ?_⟩
  · rw [List.head?_eq_some_head hchunk]
    simp [hblank _ (List.head_mem hchunk)]
  · rw [List.getLast?_eq_some_getLast hchunk]
    simp [hblank _ (List.getLast_mem hchunk)]
  · intro hreturn
    exact Bool.false_ne_true ((hblank '\r' hreturn).symm.trans rfl)

/-- How a token is spelled, but for numbers and strings. -/
def Token.spelling? : Token → Option (List Char)
  | .openArray => some ['[']
  | .closeArray => some [']']
  | .openObject => some ['\x7b']
  | .closeObject => some ['\x7d']
  | .comma => some [',']
  | .colon => some [':']
  | .null => some ['n', 'u', 'l', 'l']
  | .bool true => some ['t', 'r', 'u', 'e']
  | .bool false => some ['f', 'a', 'l', 's', 'e']
  | .number _ | .string _ => none

/-- The characters are read as the token wherever a text goes on like `rest`. -/
structure Token.Spelled (token : Token) (chunk rest : List Char) : Prop where
  spelling : ∀ fixed, token.spelling? = some fixed → chunk = fixed
  solid : Solid chunk
  read : ∀ other, SameStart rest other → Token.read? (chunk ++ other) = some (token, other)

theorem Token.read?_numeral {char : Char} (hnumeral : isNumeralChar char = true)
    (tail : List Char) : Token.read? (char :: tail) = Token.readNumber? (char :: tail) := by
  unfold Token.read?
  split
  case h_11 => rfl
  all_goals
    rename_i hchar
    obtain ⟨rfl, -⟩ := List.cons.inj hchar
    exact absurd hnumeral (by decide)

/-- Reading a token takes the characters away that spell it. -/
theorem Token.spelled_of_read? {text rest : List Char} {token : Token}
    (hread : Token.read? text = some (token, rest)) :
    ∃ chunk, text = chunk ++ rest ∧ token.Spelled chunk rest := by
  have hfixed (chunk : List Char) (hspelling : token.spelling? = some chunk)
      (hsolid : Solid chunk)
      (hchunk : ∀ other, Token.read? (chunk ++ other) = some (token, other))
      (htext : text = chunk ++ rest) :
      ∃ chunk, text = chunk ++ rest ∧ token.Spelled chunk rest := by
    refine ⟨chunk, htext, ?_, hsolid, fun other _ => hchunk other⟩
    intro fixed hfixed
    exact Option.some.inj (hspelling.symm.trans hfixed)
  unfold Token.read? at hread
  split at hread
  -- Only a string and a number have no fixed spelling, and only a number looks at what follows.
  case h_10 tail =>
    obtain ⟨⟨parts, left⟩, hparts, heq⟩ := Option.map_eq_some_iff.mp hread
    obtain ⟨rfl, rfl⟩ := Prod.mk.inj heq
    obtain ⟨inner, rfl, hinner, hinnerRead⟩ := readString?_eq_some hparts
    refine ⟨'"' :: inner ++ ['"'], by simp, ?_, ⟨rfl, ?_, ?_⟩, ?_⟩
    · intro fixed hfixed
      cases hfixed
    · rw [List.getLast?_concat]
      rfl
    · simp [hinner]
    · intro other _
      rw [List.append_assoc]
      exact Option.map_eq_some_iff.mpr ⟨(parts, other), hinnerRead other, rfl⟩
  case h_11 =>
    obtain ⟨⟨numeral, left⟩, hnumeral, heq⟩ := Option.map_eq_some_iff.mp hread
    obtain ⟨rfl, rfl⟩ := Prod.mk.inj heq
    obtain ⟨chunk, rfl, hchunk, hchunkRead⟩ := Numeral.readsLocally _ _ _ hnumeral
    have hsome : chunk ≠ [] := by
      rintro rfl
      exact absurd (Numeral.read?_length_lt hnumeral) (Nat.lt_irrefl _)
    refine ⟨chunk, rfl, ?_, .of_not_blank ?_ hsome, ?_⟩
    · intro fixed hfixed
      cases hfixed
    · intro char hchar
      exact not_isBlank_of_isNumeralChar (hchunk char hchar)
    · intro other hother
      obtain ⟨char, tail, rfl⟩ := List.exists_cons_of_ne_nil hsome
      rw [List.cons_append, Token.read?_numeral (hchunk char List.mem_cons_self)]
      exact Option.map_eq_some_iff.mpr ⟨(numeral, other), hchunkRead other hother, rfl⟩
  all_goals
    obtain ⟨rfl, rfl⟩ := Prod.mk.inj (Option.some.inj hread)
    exact hfixed _ rfl ⟨rfl, rfl, by decide⟩ (fun _ => rfl) rfl

/-! ### Rows of tokens

What is read from a row of tokens does not depend on the spaces in it. When spaces change, the text
is gone through token by token: each keeps its spelling, since what stands behind it starts in the
same way. -/

/-- The text is a row of tokens, with spaces around them. -/
inductive Lexed : List Char → List Token → Prop
  | nil {spaces : List Char} : (∀ char ∈ spaces, isSpace char = true) → Lexed spaces []
  | cons {spaces chunk rest : List Char} {token : Token} {tokens : List Token} :
      (∀ char ∈ spaces, isSpace char = true) → token.Spelled chunk rest → Lexed rest tokens →
      Lexed (spaces ++ (chunk ++ rest)) (token :: tokens)

theorem isBlank_of_isSpace {char : Char} (hspace : isSpace char = true) : isBlank char = true := by
  simp only [isSpace, Bool.or_eq_true, beq_iff_eq] at hspace
  rcases hspace with ((rfl | rfl) | rfl) | rfl <;> rfl

theorem Solid.exists_cons {chunk : List Char} (hsolid : Solid chunk) :
    ∃ char behind, chunk = char :: behind ∧ isBlank char = false := by
  obtain ⟨char, behind, rfl⟩ := List.exists_cons_of_ne_nil hsolid.ne_nil
  exact ⟨char, behind, rfl, by simpa using hsolid.first⟩

theorem Token.Spelled.of_sameStart {token : Token} {chunk rest other : List Char}
    (hspelled : token.Spelled chunk rest) (hsame : SameStart rest other) :
    token.Spelled chunk other :=
  ⟨hspelled.spelling, hspelled.solid, fun more hmore => hspelled.read more (hsame.trans hmore)⟩

theorem tokens?_of_spaces {text : List Char} (htext : text.dropWhile isSpace = []) :
    tokens? text = some [] := by
  rw [tokens?]
  split
  · rfl
  · rename_i hsome
    cases htext.symm.trans hsome

theorem tokens?_of_read? {text tail rest : List Char} {char : Char} {token : Token}
    (htext : text.dropWhile isSpace = char :: tail)
    (hread : Token.read? (char :: tail) = some (token, rest)) :
    tokens? text = (tokens? rest).map (token :: ·) := by
  rw [tokens?]
  split
  · rename_i hnone
    cases htext.symm.trans hnone
  · rename_i hsome
    obtain ⟨rfl, rfl⟩ := List.cons.inj (htext.symm.trans hsome)
    split
    · rename_i hfails
      cases hread.symm.trans hfails
    · rename_i hfound
      obtain ⟨rfl, rfl⟩ := Prod.mk.inj (Option.some.inj (hread.symm.trans hfound))
      rfl

theorem lexed_of_tokens? {text : List Char} {tokens : List Token}
    (htokens : tokens? text = some tokens) : Lexed text tokens := by
  fun_induction tokens? text generalizing tokens with
  | case1 text htext =>
      obtain rfl := Option.some.inj htokens
      exact .nil (List.dropWhile_eq_nil_iff.mp htext)
  | case2 => cases htokens
  | case3 text char tail htext token rest hread ih =>
      obtain ⟨later, hlater, rfl⟩ := Option.map_eq_some_iff.mp htokens
      obtain ⟨chunk, hchunk, hspelled⟩ := Token.spelled_of_read? hread
      have hsplit : text = text.takeWhile isSpace ++ (chunk ++ rest) := by
        rw [← hchunk, ← htext, List.takeWhile_append_dropWhile]
      rw [hsplit]
      exact .cons (List.all_eq_true.mp List.all_takeWhile) hspelled (ih hlater)

namespace Lexed

variable {text : List Char} {tokens : List Token}

theorem tokens? (hlexed : Lexed text tokens) : Json.tokens? text = some tokens := by
  induction hlexed with
  | nil hspaces => exact tokens?_of_spaces (List.dropWhile_eq_nil_iff.mpr hspaces)
  | @cons spaces chunk rest token tokens hspaces hspelled _ ih =>
      obtain ⟨char, behind, rfl, hblank⟩ := hspelled.solid.exists_cons
      have hstart : ¬isSpace char = true := by
        intro hspace
        exact Bool.false_ne_true (hblank.symm.trans (isBlank_of_isSpace hspace))
      have htext : (spaces ++ (char :: behind ++ rest)).dropWhile isSpace =
          char :: (behind ++ rest) := by
        rw [List.dropWhile_append_of_pos hspaces, List.cons_append,
          List.dropWhile_cons_of_neg hstart]
      rw [tokens?_of_read? htext (hspelled.read rest rfl), ih]
      rfl

theorem unifyLineBreaks (hlexed : Lexed text tokens) :
    Lexed (SequenceChart.unifyLineBreaks text) tokens := by
  induction hlexed with
  | nil hspaces =>
      refine .nil fun char hchar => ?_
      rcases mem_of_mem_unifyLineBreaks hchar with hmem | rfl
      · exact hspaces char hmem
      · rfl
  | @cons spaces chunk rest token tokens hspaces hspelled _ ih =>
      have hstart : (chunk ++ rest).head? ≠ some '\n' := by
        obtain ⟨char, behind, rfl, hblank⟩ := hspelled.solid.exists_cons
        intro hhead
        obtain rfl := Option.some.inj hhead
        exact nomatch hblank
      rw [unifyLineBreaks_append spaces hstart,
        unifyLineBreaks_append_of_notMem hspelled.solid.unbroken]
      refine .cons ?_ (hspelled.of_sameStart (sameStart_unifyLineBreaks rest)) ih
      intro char hchar
      rcases mem_of_mem_unifyLineBreaks hchar with hmem | rfl
      · exact hspaces char hmem
      · rfl

theorem dropBlanks (hlexed : Lexed text tokens) : Lexed (SequenceChart.dropBlanks text) tokens := by
  cases hlexed with
  | nil hspaces =>
      rw [dropBlanks_eq_nil fun char hchar => isBlank_of_isSpace (hspaces char hchar)]
      exact .nil (List.forall_mem_nil _)
  | @cons spaces chunk rest token tokens hspaces hspelled hrest =>
      obtain ⟨char, behind, rfl, hblank⟩ := hspelled.solid.exists_cons
      have hdrop : SequenceChart.dropBlanks (spaces ++ (char :: behind ++ rest)) =
          [] ++ (char :: behind ++ rest) := by
        rw [SequenceChart.dropBlanks, List.dropWhile_append_of_pos fun char hchar =>
          isBlank_of_isSpace (hspaces char hchar)]
        exact List.dropWhile_cons_of_neg (by simp [hblank])
      rw [hdrop]
      exact .cons (List.forall_mem_nil _) hspelled hrest

theorem dropEndBlanks (hlexed : Lexed text tokens) :
    Lexed (SequenceChart.dropEndBlanks text) tokens ∧
      SameStart text (SequenceChart.dropEndBlanks text) := by
  induction hlexed with
  | @nil spaces hspaces =>
      have hblanks : ∀ char ∈ spaces, isBlank char = true :=
        fun char hchar => isBlank_of_isSpace (hspaces char hchar)
      have hnone : SequenceChart.dropEndBlanks ([] ++ spaces) = [] := dropEndBlanks_append hblanks
      rw [List.nil_append] at hnone
      rw [hnone]
      refine ⟨.nil (List.forall_mem_nil _), ?_⟩
      cases spaces with
      | nil => rfl
      | cons char spaces =>
          apply Option.filter_some_neg
          rw [Bool.eq_false_iff]
          intro hnumeral
          have hblank := hblanks char List.mem_cons_self
          exact Bool.false_ne_true ((not_isBlank_of_isNumeralChar hnumeral).symm.trans hblank)
  | @cons spaces chunk rest token tokens hspaces hspelled _ ih =>
      have hdrop : SequenceChart.dropEndBlanks (spaces ++ (chunk ++ rest)) =
          spaces ++ (chunk ++ SequenceChart.dropEndBlanks rest) := by
        have hlast : (spaces ++ chunk).getLast?.any (!isBlank ·) = true := by
          have hchunk := hspelled.solid.last
          rw [List.getLast?_append]
          cases hend : chunk.getLast? with
          | none =>
              rw [hend] at hchunk
              cases hchunk
          | some char =>
              rw [hend] at hchunk
              exact hchunk
        rw [← List.append_assoc, dropEndBlanks_append_of_last hlast, List.append_assoc]
      rw [hdrop]
      refine ⟨.cons hspaces (hspelled.of_sameStart ih.2) ih.1, ?_⟩
      exact (ih.2.append chunk).append spaces

theorem trim (hlexed : Lexed text tokens) : Lexed (SequenceChart.trim text) tokens :=
  hlexed.dropBlanks.dropEndBlanks.1

end Lexed

end Json

end SequenceChart
