import Mathlib.Data.String.Basic
import SequenceChart.Proofs.Lookahead
import SequenceChart.Text.Break

/-!
# Octets

A text in UTF-8. A scanner that goes over the octets one by one meets continuation octets as well,
so it could stop, or cut, inside a character. What it looks for are ASCII characters, though, which
are octets of their own and part of no other character. So it finds in the octets what there is to
find in the characters.
-/

namespace SequenceChart

/-- The octets of a character, each as the character of that number. -/
def charOctets (char : Char) : List Char :=
  (String.utf8EncodeChar char).map fun octet => Char.ofNat octet.toNat

def octets (text : List Char) : List Char :=
  text.flatMap charOctets

/-- A character begins at the offset, or the text ends there. -/
def IsBoundary (text : List Char) (offset : Nat) : Prop :=
  (String.Pos.Raw.mk offset).IsValid (String.ofList text)

instance (text : List Char) (offset : Nat) : Decidable (IsBoundary text offset) :=
  inferInstanceAs (Decidable (String.Pos.Raw.IsValid _ _))

/-- The part of a text between two offsets. There is none if they are not in order, or one of them
is no boundary. -/
def slice? (text : List Char) (start stop : Nat) : Option (List Char) :=
  if start ≤ stop ∧ IsBoundary text start ∧ IsBoundary text stop then
    some ((textBefore stop text).drop (textBefore start text).length)
  else none

def IsAscii (char : Char) : Prop :=
  char.toNat < 128

instance (char : Char) : Decidable (IsAscii char) :=
  inferInstanceAs (Decidable (_ < _))

-- Goes over the text; the instance for all characters is too long to evaluate.
instance (text : List Char) : Decidable (∀ char ∈ text, IsAscii char) :=
  List.decidableBAll _ text

theorem length_charOctets (char : Char) : (charOctets char).length = char.utf8Size := by
  rw [charOctets, List.length_map, String.length_utf8EncodeChar]

theorem charOctets_ne_nil (char : Char) : charOctets char ≠ [] := by
  rw [charOctets, Ne, List.map_eq_nil_iff]
  exact String.utf8EncodeChar_ne_nil

theorem toNat_ofNat_octet (octet : UInt8) : (Char.ofNat octet.toNat).toNat = octet.toNat := by
  have hlt := octet.toNat_lt
  have hvalid : octet.toNat.isValidChar := .inl (by omega)
  rw [Char.ofNat, dif_pos hvalid]
  rfl

theorem charOctets_ascii {char : Char} (hascii : IsAscii char) : charOctets char = [char] := by
  have hle : char.val.toNat ≤ 127 := Nat.le_of_lt_succ hascii
  have hoctets : String.utf8EncodeChar char = [UInt8.ofNat char.val.toNat] := if_pos hle
  have hsmall : (UInt8.ofNat char.val.toNat).toNat = char.toNat :=
    UInt8.toNat_ofNat_of_lt' (Nat.lt_of_le_of_lt hle (by decide))
  rw [charOctets, hoctets, List.map_singleton, hsmall, Char.ofNat_toNat]

/-- No octet of a character outside ASCII is an ASCII character. -/
theorem not_isAscii_of_mem_charOctets {char octet : Char} (hwide : ¬IsAscii char)
    (hmem : octet ∈ charOctets char) : ¬IsAscii octet := by
  obtain ⟨number, hnumber, rfl⟩ := List.mem_map.mp hmem
  rw [IsAscii, toNat_ofNat_octet]
  have hgt : ¬char.val.toNat ≤ 127 := fun hle => hwide (Nat.lt_succ_of_le hle)
  have hlarge (low : Nat) (hhigh : low % 256 ≥ 128) (heq : number = UInt8.ofNat low) :
      ¬number.toNat < 128 := by
    rw [heq, UInt8.toNat_ofNat']
    omega
  simp only [String.utf8EncodeChar, if_neg hgt] at hnumber
  split at hnumber
  · simp only [List.mem_cons, List.not_mem_nil, or_false] at hnumber
    rcases hnumber with heq | heq
    · exact hlarge _ (by omega) heq
    · exact hlarge _ (by omega) heq
  · split at hnumber
    · simp only [List.mem_cons, List.not_mem_nil, or_false] at hnumber
      rcases hnumber with heq | heq | heq
      · exact hlarge _ (by omega) heq
      · exact hlarge _ (by omega) heq
      · exact hlarge _ (by omega) heq
    · simp only [List.mem_cons, List.not_mem_nil, or_false] at hnumber
      rcases hnumber with heq | heq | heq | heq
      · exact hlarge _ (by omega) heq
      · exact hlarge _ (by omega) heq
      · exact hlarge _ (by omega) heq
      · exact hlarge _ (by omega) heq

theorem octets_cons (char : Char) (text : List Char) :
    octets (char :: text) = charOctets char ++ octets text :=
  rfl

theorem octets_append (left right : List Char) :
    octets (left ++ right) = octets left ++ octets right :=
  List.flatMap_append

theorem octets_cons_ascii {char : Char} (hascii : IsAscii char) (text : List Char) :
    octets (char :: text) = char :: octets text := by
  rw [octets_cons, charOctets_ascii hascii]
  rfl

theorem length_octets (text : List Char) : (octets text).length = byteLength text := by
  induction text with
  | nil => rfl
  | cons char text ih =>
      rw [octets_cons, List.length_append, length_charOctets, ih, byteLength]

theorem length_le_byteLength (text : List Char) : text.length ≤ byteLength text := by
  induction text with
  | nil => exact Nat.le_refl _
  | cons char text ih =>
      have hpositive := char.utf8Size_pos
      rw [List.length_cons, byteLength]
      omega

theorem drop_octets (before after : List Char) :
    (octets (before ++ after)).drop (byteLength before) = octets after := by
  rw [octets_append, ← length_octets, List.drop_left]

theorem utf8ByteSize_ofList (text : List Char) :
    (String.ofList text).utf8ByteSize = byteLength text := by
  induction text with
  | nil => rfl
  | cons char text ih =>
      rw [String.utf8ByteSize_ofList] at ih ⊢
      rw [String.utf8Len, ih, byteLength, Nat.add_comm]

theorem isBoundary_iff {text : List Char} {offset : Nat} : IsBoundary text offset ↔
    ∃ before after, text = before ++ after ∧ offset = byteLength before := by
  rw [IsBoundary, String.Pos.Raw.isValid_iff_exists_append]
  constructor
  · rintro ⟨before, after, htext, hoffset⟩
    refine ⟨before.toList, after.toList, ?_, ?_⟩
    · rw [← String.toList_append, ← htext, String.toList_ofList]
    · rw [← utf8ByteSize_ofList, String.ofList_toList]
      exact congrArg String.Pos.Raw.byteIdx hoffset
  · rintro ⟨before, after, rfl, rfl⟩
    refine ⟨String.ofList before, String.ofList after, String.ofList_append, ?_⟩
    rw [← utf8ByteSize_ofList]
    rfl

theorem isBoundary_append (before after : List Char) :
    IsBoundary (before ++ after) (byteLength before) :=
  isBoundary_iff.mpr ⟨before, after, rfl, rfl⟩

theorem IsBoundary.le {text : List Char} {offset : Nat} (hboundary : IsBoundary text offset) :
    offset ≤ byteLength text := by
  obtain ⟨before, after, rfl, rfl⟩ := isBoundary_iff.mp hboundary
  rw [byteLength_append]
  exact Nat.le_add_right _ _

theorem slice?_append (before middle after : List Char) :
    slice? (before ++ (middle ++ after)) (byteLength before)
      (byteLength before + byteLength middle) = some middle := by
  have hstart := isBoundary_append before (middle ++ after)
  have hstop := isBoundary_append (before ++ middle) after
  have hbefore := textBefore_byteLength_append before (middle ++ after)
  have hmiddle := textBefore_byteLength_append (before ++ middle) after
  rw [byteLength_append, List.append_assoc] at hstop hmiddle
  rw [slice?, if_pos ⟨Nat.le_add_right _ _, hstart, hstop⟩, hbefore, hmiddle, List.drop_left]

/-! ### Scanning octets

Each scan is compared at the first character of the text. If it is ASCII, it is an octet of its own,
and both scans do the same there. If it is not, none of its octets is anything that is looked for,
and both stop at it or both go past it. -/

theorem ne_of_not_isAscii {char mark : Char} (hwide : ¬IsAscii char) (hmark : IsAscii mark) :
    char ≠ mark := by
  rintro rfl
  exact hwide hmark

theorem exists_charOctets {char : Char} (hwide : ¬IsAscii char) :
    ∃ first others, charOctets char = first :: others ∧ ¬IsAscii first := by
  obtain ⟨first, others, hoctets⟩ := List.exists_cons_of_ne_nil (charOctets_ne_nil char)
  refine ⟨first, others, hoctets, not_isAscii_of_mem_charOctets hwide ?_⟩
  rw [hoctets]
  exact List.mem_cons_self

theorem head?_octets {mark : Char} (hmark : IsAscii mark) (text : List Char) :
    (octets text).head? = some mark ↔ text.head? = some mark := by
  cases text with
  | nil => rfl
  | cons char text =>
      by_cases hascii : IsAscii char
      · rw [octets_cons_ascii hascii, List.head?_cons, List.head?_cons]
      · obtain ⟨first, others, hoctets, hfirst⟩ := exists_charOctets hascii
        rw [octets_cons, hoctets, List.cons_append, List.head?_cons, List.head?_cons]
        simp [ne_of_not_isAscii hascii hmark, ne_of_not_isAscii hfirst hmark]

section

variable {holds : Char → Bool}

theorem takeWhile_octets (hascii : ∀ char, holds char = true → IsAscii char) (text : List Char) :
    (octets text).takeWhile holds = octets (text.takeWhile holds) := by
  induction text with
  | nil => rfl
  | cons char text ih =>
      by_cases hholds : holds char = true
      · rw [octets_cons_ascii (hascii char hholds), List.takeWhile_cons_of_pos hholds,
          List.takeWhile_cons_of_pos hholds, ih, octets_cons_ascii (hascii char hholds)]
      · rw [List.takeWhile_cons_of_neg hholds]
        by_cases hwide : IsAscii char
        · rw [octets_cons_ascii hwide, List.takeWhile_cons_of_neg hholds]
          rfl
        · obtain ⟨first, others, hoctets, hfirst⟩ := exists_charOctets hwide
          rw [octets_cons, hoctets, List.cons_append,
            List.takeWhile_cons_of_neg fun hfound => hfirst (hascii first hfound)]
          rfl

theorem dropWhile_octets (hascii : ∀ char, holds char = true → IsAscii char) (text : List Char) :
    (octets text).dropWhile holds = octets (text.dropWhile holds) := by
  have hoctets := List.takeWhile_append_dropWhile (p := holds) (l := octets text)
  rw [takeWhile_octets hascii] at hoctets
  have htext := congrArg octets (List.takeWhile_append_dropWhile (p := holds) (l := text))
  rw [octets_append] at htext
  exact List.append_cancel_left (hoctets.trans htext.symm)

end

/-- Whether a scan stops is decided by ASCII characters. -/
structure AsciiStops (stops : List Char → Bool) : Prop where
  passes : ∀ {char : Char}, ¬IsAscii char → ∀ rest, stops (char :: rest) = false
  agrees : ∀ {char : Char}, IsAscii char → ∀ rest,
    stops (char :: octets rest) = stops (char :: rest)

theorem AsciiStops.octets {stops : List Char → Bool} (hstops : AsciiStops stops)
    (text : List Char) : stops (octets text) = stops text := by
  cases text with
  | nil => rfl
  | cons char text =>
      by_cases hascii : IsAscii char
      · rw [octets_cons_ascii hascii, hstops.agrees hascii]
      · obtain ⟨first, others, hoctets, hfirst⟩ := exists_charOctets hascii
        rw [octets_cons, hoctets, List.cons_append, hstops.passes hfirst, hstops.passes hascii]

theorem takeUntil_passes {stops : List Char → Bool} (hstops : AsciiStops stops)
    {front : List Char} (hfront : ∀ char ∈ front, ¬IsAscii char) (rest : List Char) :
    takeUntil stops (front ++ rest) = front ++ takeUntil stops rest := by
  induction front with
  | nil => rfl
  | cons char front ih =>
      rw [List.forall_mem_cons] at hfront
      rw [List.cons_append, takeUntil, hstops.passes hfront.1, if_neg Bool.false_ne_true,
        ih hfront.2, List.cons_append]

theorem takeUntil_octets {stops : List Char → Bool} (hstops : AsciiStops stops)
    (text : List Char) : takeUntil stops (octets text) = octets (takeUntil stops text) := by
  induction text with
  | nil => rfl
  | cons char text ih =>
      by_cases hascii : IsAscii char
      · rw [octets_cons_ascii hascii, takeUntil, takeUntil, hstops.agrees hascii, ih]
        split
        · rfl
        · rw [octets_cons_ascii hascii]
      · rw [octets_cons, takeUntil_passes hstops
          (fun _ hmem => not_isAscii_of_mem_charOctets hascii hmem), ih, takeUntil,
          hstops.passes hascii, if_neg Bool.false_ne_true, octets_cons]

theorem endsStatement_ascii : AsciiStops endsStatement where
  passes := by
    intro char hwide rest
    rw [endsStatement_cons]
    simp [ne_of_not_isAscii hwide (show IsAscii '\n' by decide),
      ne_of_not_isAscii hwide (show IsAscii ';' by decide),
      ne_of_not_isAscii hwide (show IsAscii '#' by decide),
      ne_of_not_isAscii hwide (show IsAscii '%' by decide)]
  agrees := by
    intro char _ rest
    rw [endsStatement_cons, endsStatement_cons, Bool.eq_iff_iff]
    simp [head?_octets (show IsAscii '%' by decide)]

theorem endsActor_ascii : AsciiStops Reading.endsActor where
  passes := by
    intro char hwide rest
    rw [Reading.endsActor_cons, Reading.startsArrow_cons, endsStatement_ascii.passes hwide]
    simp [ne_of_not_isAscii hwide (show IsAscii ',' by decide),
      ne_of_not_isAscii hwide (show IsAscii ':' by decide),
      ne_of_not_isAscii hwide (show IsAscii '+' by decide),
      ne_of_not_isAscii hwide (show IsAscii '>' by decide),
      ne_of_not_isAscii hwide (show IsAscii '-' by decide)]
  agrees := by
    intro char hascii rest
    rw [Reading.endsActor_cons, Reading.endsActor_cons, Reading.startsArrow_cons,
      Reading.startsArrow_cons, endsStatement_ascii.agrees hascii, Bool.eq_iff_iff]
    simp [head?_octets (show IsAscii '-' by decide), head?_octets (show IsAscii '>' by decide),
      head?_octets (show IsAscii 'x' by decide)]

theorem isAscii_of_isIndent (char : Char) (hindent : isIndent char = true) : IsAscii char := by
  simp only [isIndent, Bool.or_eq_true, beq_iff_eq] at hindent
  rcases hindent with (rfl | rfl) | rfl <;> decide

theorem isAscii_of_isTagSpace (char : Char) (hspace : isTagSpace char = true) : IsAscii char := by
  simp only [isTagSpace, Bool.or_eq_true, beq_iff_eq] at hspace
  rcases hspace with (((rfl | rfl) | rfl) | rfl) | rfl <;> decide

theorem isAscii_of_isAlphanum {char : Char} (halphanum : char.isAlphanum = true) :
    IsAscii char := by
  have hle {last : UInt32} (hlast : last.toNat < 128) (hchar : char.val ≤ last) : IsAscii char :=
    Nat.lt_of_le_of_lt (UInt32.le_iff_toNat_le.mp hchar) hlast
  rcases Bool.or_eq_true_iff.mp halphanum with halpha | hdigit
  · rcases Bool.or_eq_true_iff.mp halpha with hupper | hlower
    · exact hle (by decide) (of_decide_eq_true hupper).2
    · exact hle (by decide) (of_decide_eq_true (Bool.and_eq_true_iff.mp hlower).2)
  · exact hle (by decide) (of_decide_eq_true (Bool.and_eq_true_iff.mp hdigit).2)

/-- What follows a word is told by its first character, and outside ASCII all are alike. -/
theorem follows_octets {follows : List Char → Bool}
    (hhead : ∀ char rest other, follows (char :: rest) = follows (char :: other))
    (hwide : ∀ {char other : Char}, ¬IsAscii char → ¬IsAscii other →
      follows [char] = follows [other]) (text : List Char) :
    follows (octets text) = follows text := by
  cases text with
  | nil => rfl
  | cons char text =>
      by_cases hascii : IsAscii char
      · rw [octets_cons_ascii hascii]
        exact hhead _ _ _
      · obtain ⟨first, others, hoctets, hfirst⟩ := exists_charOctets hascii
        rw [octets_cons, hoctets, List.cons_append, hhead first _ [], hhead char _ []]
        exact hwide hfirst hascii

theorem followsWord_octets (text : List Char) :
    Reading.followsWord (octets text) = Reading.followsWord text := by
  have hword {char : Char} (hwide : ¬IsAscii char) : Reading.followsWord [char] = true := by
    have halphanum : char.isAlphanum = false :=
      Bool.eq_false_iff.mpr fun halphanum => hwide (isAscii_of_isAlphanum halphanum)
    simp [Reading.followsWord, halphanum, ne_of_not_isAscii hwide (show IsAscii '_' by decide)]
  refine follows_octets (fun _ _ _ => rfl) (fun hwide hother => ?_) text
  rw [hword hwide, hword hother]

theorem followsKeyword_octets (text : List Char) :
    Reading.followsKeyword (octets text) = Reading.followsKeyword text := by
  have hkeyword {char : Char} (hwide : ¬IsAscii char) : Reading.followsKeyword [char] = false := by
    have hindent : isIndent char = false :=
      Bool.eq_false_iff.mpr fun hindent => hwide (isAscii_of_isIndent char hindent)
    simp [Reading.followsKeyword, hindent, ne_of_not_isAscii hwide (show IsAscii '\n' by decide),
      ne_of_not_isAscii hwide (show IsAscii ';' by decide),
      ne_of_not_isAscii hwide (show IsAscii ':' by decide),
      ne_of_not_isAscii hwide (show IsAscii '\x7b' by decide)]
  refine follows_octets (fun _ _ _ => rfl) (fun hwide hother => ?_) text
  rw [hkeyword hwide, hkeyword hother]

theorem toNat_toLower (char : Char) : char.toLower.toNat =
    if 65 ≤ char.toNat ∧ char.toNat ≤ 90 then char.toNat + 32 else char.toNat := by
  have hupper : (char.val ≥ 'A'.val ∧ char.val ≤ 'Z'.val) ↔
      65 ≤ char.toNat ∧ char.toNat ≤ 90 := by
    rw [ge_iff_le, UInt32.le_iff_toNat_le, UInt32.le_iff_toNat_le]
    rfl
  unfold Char.toLower
  split
  · rename_i hrange
    have hle := (hupper.mp hrange).2
    rw [if_pos (hupper.mp hrange)]
    change (char.val + ('a'.val - 'A'.val)).toNat = _
    rw [UInt32.toNat_add]
    exact Nat.mod_eq_of_lt (Nat.lt_of_le_of_lt (Nat.add_le_add_right hle 32) (by decide))
  · rename_i hrange
    rw [if_neg fun hletter => hrange (hupper.mpr hletter)]

theorem isAscii_toLower {char : Char} : IsAscii char.toLower ↔ IsAscii char := by
  rw [IsAscii, IsAscii, toNat_toLower]
  split <;> omega

theorem isAscii_of_map_toLower {text word : List Char} (hword : ∀ letter ∈ word, IsAscii letter)
    (hlower : text.map Char.toLower = word.map Char.toLower) : ∀ char ∈ text, IsAscii char := by
  intro char hmem
  have hchar : char.toLower ∈ word.map Char.toLower := hlower ▸ List.mem_map_of_mem hmem
  obtain ⟨letter, hletter, heq⟩ := List.mem_map.mp hchar
  exact isAscii_toLower.mp (heq ▸ isAscii_toLower.mpr (hword letter hletter))

/-- Only letters come in two cases. -/
theorem eq_toLower_iff {mark char : Char} (hmark : mark.toNat < 65) :
    mark = char.toLower ↔ char = mark := by
  constructor
  · intro heq
    have hnumber := congrArg Char.toNat heq
    rw [toNat_toLower] at hnumber
    refine Char.toNat_inj.mp ?_
    split at hnumber <;> omega
  · rintro rfl
    refine Char.toNat_inj.mp ?_
    rw [toNat_toLower, if_neg (by omega)]

theorem dropWord?_octets {word : List Char} (hword : ∀ letter ∈ word, IsAscii letter)
    (text : List Char) : dropWord? word (octets text) = (dropWord? word text).map octets := by
  induction word generalizing text with
  | nil => rfl
  | cons letter word ih =>
      rw [List.forall_mem_cons] at hword
      cases text with
      | nil => rfl
      | cons char text =>
          by_cases hascii : IsAscii char
          · rw [octets_cons_ascii hascii, dropWord?, dropWord?, ih hword.2]
            split <;> rfl
          · have hne {other : Char} (hwide : ¬IsAscii other) : letter.toLower ≠ other.toLower := by
              intro heq
              exact hwide (isAscii_toLower.mp (heq ▸ isAscii_toLower.mpr hword.1))
            obtain ⟨first, others, hoctets, hfirst⟩ := exists_charOctets hascii
            rw [octets_cons, hoctets, List.cons_append, dropWord?, dropWord?, if_neg (hne hfirst),
              if_neg (hne hascii)]
            rfl

theorem isPrefixOf_octets {mark : List Char} (hmark : ∀ char ∈ mark, IsAscii char)
    (text : List Char) : mark.isPrefixOf (octets text) = mark.isPrefixOf text := by
  induction mark generalizing text with
  | nil => rfl
  | cons first mark ih =>
      rw [List.forall_mem_cons] at hmark
      cases text with
      | nil => rfl
      | cons char text =>
          by_cases hascii : IsAscii char
          · rw [octets_cons_ascii hascii, List.isPrefixOf, List.isPrefixOf, ih hmark.2]
          · have hne {other : Char} (hwide : ¬IsAscii other) : (first == other) = false :=
              beq_eq_false_iff_ne.mpr (ne_of_not_isAscii hwide hmark.1).symm
            obtain ⟨octet, others, hoctets, hoctet⟩ := exists_charOctets hascii
            rw [octets_cons, hoctets, List.cons_append, List.isPrefixOf, List.isPrefixOf,
              hne hascii, hne hoctet, Bool.false_and, Bool.false_and]

theorem octets_ascii {text : List Char} (hascii : ∀ char ∈ text, IsAscii char) :
    octets text = text := by
  induction text with
  | nil => rfl
  | cons char text ih =>
      rw [List.forall_mem_cons] at hascii
      rw [octets_cons_ascii hascii.1, ih hascii.2]

theorem isAscii_of_octets {text : List Char} (hoctets : ∀ octet ∈ octets text, IsAscii octet) :
    ∀ char ∈ text, IsAscii char := by
  intro char hmem
  by_contra hwide
  obtain ⟨octet, others, hchar, hoctet⟩ := exists_charOctets hwide
  exact hoctet (hoctets octet (List.mem_flatMap.mpr ⟨char, hmem, hchar ▸ List.mem_cons_self⟩))

theorem cutAt?_passes {mark : List Char} (hmark : ∀ char ∈ mark, IsAscii char) (hne : mark ≠ [])
    {front : List Char} (hfront : ∀ char ∈ front, ¬IsAscii char) (rest : List Char) :
    cutAt? mark (front ++ rest) = (cutAt? mark rest).map fun (before, after) =>
      (front ++ before, after) := by
  induction front with
  | nil => exact Option.map_id'.symm
  | cons char front ih =>
      rw [List.forall_mem_cons] at hfront
      have hprefix : mark.isPrefixOf (char :: (front ++ rest)) = false := by
        obtain ⟨first, mark, rfl⟩ := List.exists_cons_of_ne_nil hne
        rw [List.isPrefixOf, beq_eq_false_iff_ne.mpr
          (ne_of_not_isAscii hfront.1 (hmark first List.mem_cons_self)).symm, Bool.false_and]
      rw [List.cons_append, cutAt?, hprefix, if_neg Bool.false_ne_true, ih hfront.2,
        Option.map_map]
      rfl

/-- No mark of ASCII characters begins inside a character. -/
theorem cutAt?_octets {mark : List Char} (hmark : ∀ char ∈ mark, IsAscii char) (hne : mark ≠ [])
    (text : List Char) : cutAt? mark (octets text) = (cutAt? mark text).map fun (before, after) =>
      (octets before, octets after) := by
  induction text with
  | nil =>
      have hempty : mark.isEmpty = false := by simpa using hne
      rw [show octets [] = [] from rfl, cutAt?, hempty]
      rfl
  | cons char text ih =>
      by_cases hascii : IsAscii char
      · have hprefix := isPrefixOf_octets hmark (char :: text)
        rw [octets_cons_ascii hascii] at hprefix ⊢
        rw [cutAt?, cutAt?, hprefix]
        split
        · rename_i hstarts
          obtain ⟨after, hafter⟩ := List.isPrefixOf_iff_prefix.mp hstarts
          rw [← octets_cons_ascii hascii, ← hafter, octets_append, octets_ascii hmark,
            List.drop_left, List.drop_left]
          rfl
        · rw [ih, Option.map_map, Option.map_map]
          refine congrArg (Option.map · (cutAt? mark text)) (funext fun cut => ?_)
          exact congrArg (·, octets cut.2) (octets_cons_ascii hascii cut.1).symm
      · have hprefix : mark.isPrefixOf (char :: text) = false := by
          obtain ⟨first, mark, rfl⟩ := List.exists_cons_of_ne_nil hne
          rw [List.isPrefixOf, beq_eq_false_iff_ne.mpr
            (ne_of_not_isAscii hascii (hmark first List.mem_cons_self)).symm, Bool.false_and]
        rw [octets_cons, cutAt?_passes hmark hne
          (fun _ hmem => not_isAscii_of_mem_charOctets hascii hmem), ih, cutAt?, hprefix,
          if_neg Bool.false_ne_true, Option.map_map, Option.map_map]
        rfl

theorem utf8Size_ascii {char : Char} (hascii : IsAscii char) : char.utf8Size = 1 := by
  rw [← length_charOctets, charOctets_ascii hascii, List.length_singleton]

theorem blankLength_passes {front : List Char} (hfront : ∀ char ∈ front, ¬IsAscii char)
    (rest : List Char) :
    blankLength true (front ++ rest) = front.length + blankLength true rest := by
  induction front with
  | nil => exact (Nat.zero_add _).symm
  | cons char front ih =>
      rw [List.forall_mem_cons] at hfront
      have hbreak : char ≠ '\n' := ne_of_not_isAscii hfront.1 (by decide)
      rw [List.cons_append, blankLength_true_cons hbreak, ih hfront.2, List.length_cons]
      omega

theorem blankLength_octets (inComment : Bool) (text : List Char) :
    blankLength inComment (octets text) =
      byteLength (text.take (blankLength inComment text)) := by
  induction text generalizing inComment with
  | nil => rfl
  | cons char text ih =>
      have htake (count : Nat) : byteLength ((char :: text).take (1 + count)) =
          char.utf8Size + byteLength (text.take count) := by
        rw [Nat.add_comm, List.take_succ_cons, byteLength]
      by_cases hascii : IsAscii char
      · rw [octets_cons_ascii hascii]
        by_cases hbreak : char = '\n'
        · rw [hbreak] at htake ⊢
          rw [blankLength, blankLength, htake, ih]
          rfl
        · cases inComment with
          | true =>
              rw [blankLength_true_cons hbreak, blankLength_true_cons hbreak, htake, ih,
                utf8Size_ascii hascii]
          | false =>
              rw [blankLength_false_cons hbreak, blankLength_false_cons hbreak,
                endsStatement_ascii.agrees hascii]
              split
              · rw [htake, ih, utf8Size_ascii hascii]
              · split
                · rw [htake, ih, utf8Size_ascii hascii]
                · rfl
      · have hbreak : char ≠ '\n' := ne_of_not_isAscii hascii (by decide)
        cases inComment with
        | true =>
            rw [octets_cons, blankLength_passes
              (fun _ hmem => not_isAscii_of_mem_charOctets hascii hmem),
              blankLength_true_cons hbreak, htake, ih, length_charOctets]
        | false =>
            have hnone {other : Char} (hwide : ¬IsAscii other) (rest : List Char) :
                blankLength false (other :: rest) = 0 := by
              have hindent : isIndent other = false :=
                Bool.eq_false_iff.mpr fun hindent => hwide (isAscii_of_isIndent other hindent)
              rw [blankLength_false_cons (ne_of_not_isAscii hwide (by decide)), hindent,
                beq_eq_false_iff_ne.mpr (ne_of_not_isAscii hwide (by decide)),
                endsStatement_ascii.passes hwide]
              rfl
            obtain ⟨first, others, hoctets, hfirst⟩ := exists_charOctets hascii
            rw [octets_cons, hoctets, List.cons_append, hnone hfirst, hnone hascii]
            rfl

theorem closeTag?_eq (text : List Char) :
    closeTag? text = (dropWord? ['/', '>'] text).or (dropWord? ['>'] text) := by
  have hslash {char : Char} : '/' = char.toLower ↔ char = '/' := eq_toLower_iff (by decide)
  have hclose {char : Char} : '>' = char.toLower ↔ char = '>' := eq_toLower_iff (by decide)
  unfold closeTag?
  split
  · rfl
  · rfl
  · rename_i hpair hsingle
    rcases text with _ | ⟨first, _ | ⟨second, rest⟩⟩
    · rfl
    · have hfirst : first ≠ '>' := fun heq => hsingle [] (heq ▸ rfl)
      simp [dropWord?, hclose, hfirst]
    · have hfirst : first ≠ '>' := fun heq => hsingle (second :: rest) (heq ▸ rfl)
      have hsecond : first = '/' → second ≠ '>' := fun heq hgreater =>
        hpair rest (heq ▸ hgreater ▸ rfl)
      simpa [dropWord?, hclose, hslash, hfirst] using hsecond

theorem afterBreak?_eq (text : List Char) : afterBreak? text =
    (dropWord? ['<', 'b', 'r'] text).bind fun rest => closeTag? (rest.dropWhile isTagSpace) := by
  have hopen {char : Char} : '<' = char.toLower ↔ char = '<' := eq_toLower_iff (by decide)
  unfold afterBreak?
  split
  · rename_i first second rest
    by_cases hfirst : first.toLower = 'b'
    · by_cases hsecond : second.toLower = 'r' <;> simp [dropWord?, hfirst, hsecond, Ne.symm]
    · simp [dropWord?, hfirst, Ne.symm hfirst]
  · rename_i hshape
    rcases text with _ | ⟨opening, _ | ⟨first, _ | ⟨second, rest⟩⟩⟩
    · rfl
    · simp [dropWord?]
    · simp [dropWord?]
    · have hopening : opening ≠ '<' := fun heq => hshape first second rest (heq ▸ rfl)
      simp [dropWord?, hopen, hopening]

theorem afterBreak?_octets (text : List Char) :
    afterBreak? (octets text) = (afterBreak? text).map octets := by
  have hclose (text : List Char) : closeTag? (octets text) = (closeTag? text).map octets := by
    rw [closeTag?_eq, closeTag?_eq, dropWord?_octets (by decide), dropWord?_octets (by decide),
      Option.map_or]
  rw [afterBreak?_eq, afterBreak?_eq, dropWord?_octets (by decide), Option.bind_map,
    Option.map_bind]
  refine congrArg (Option.bind _) (funext fun rest => ?_)
  exact (congrArg closeTag? (dropWhile_octets isAscii_of_isTagSpace rest)).trans (hclose _)

end SequenceChart
