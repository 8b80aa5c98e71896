import SequenceChart.Grammar.Progress

/-!
# Spelled words

A word is spelled in letters of any case. At most one keyword stands at the start of a text, since
what follows a keyword can be no part of one.
-/

namespace SequenceChart

/-- The text is the word, in letters of any case. -/
def Spells (word : String) (text : List Char) : Prop :=
  text.map Char.toLower = word.toList.map Char.toLower

instance (word : String) (text : List Char) : Decidable (Spells word text) :=
  inferInstanceAs (Decidable (_ = _))

theorem Spells.length_eq {word : String} {text : List Char} (hspells : Spells word text) :
    text.length = word.length := by
  have hlength := congrArg List.length hspells
  rwa [List.length_map, List.length_map, String.length_toList] at hlength

theorem Spells.ne_nil {word : String} {text : List Char} (hspells : Spells word text)
    (hword : word ≠ "") : text ≠ [] := by
  rintro rfl
  have hlength := hspells.length_eq
  rw [List.length_nil, ← String.length_toList] at hlength
  exact hword (String.toList_eq_nil_iff.mp (List.eq_nil_of_length_eq_zero hlength.symm))

/-- Characters that stand between words and in none of them. -/
def marks : List Char :=
  [' ', '\t', '\r', '\n', ';', ':', '\x7b', '-', '#', '%']

/-- None of the marks stands in the word. -/
def Lettered (word : String) : Prop :=
  (word.toList.all fun letter => marks.all fun mark => mark.toLower != letter.toLower) = true

instance (word : String) : Decidable (Lettered word) :=
  inferInstanceAs (Decidable (_ = _))

theorem Spells.not_mem_marks {word : String} {text : List Char} (hspells : Spells word text)
    (hword : Lettered word) {char : Char} (hchar : char ∈ text) : char ∉ marks := by
  intro hmark
  have hlower : char.toLower ∈ word.toList.map Char.toLower := by
    rw [← hspells]
    exact List.mem_map_of_mem hchar
  obtain ⟨letter, hletter, heq⟩ := List.mem_map.mp hlower
  have hne := List.all_eq_true.mp (List.all_eq_true.mp hword letter hletter) char hmark
  exact absurd heq.symm (bne_iff_ne.mp hne)

theorem dropWord?_eq_some_iff {word text rest : List Char} :
    dropWord? word text = some rest ↔
      ∃ spelled, text = spelled ++ rest ∧ spelled.map Char.toLower = word.map Char.toLower := by
  induction word generalizing text with
  | nil =>
      simp only [dropWord?, Option.some.injEq, List.map_nil, List.map_eq_nil_iff]
      constructor
      · rintro rfl
        exact ⟨[], rfl, rfl⟩
      · rintro ⟨spelled, rfl, rfl⟩
        rfl
  | cons letter word ih =>
      cases text with
      | nil =>
          constructor
          · intro hdrop
            simp [dropWord?] at hdrop
          · rintro ⟨spelled, htext, hspelled⟩
            rw [(List.append_eq_nil_iff.mp htext.symm).1] at hspelled
            simp at hspelled
      | cons char text =>
          simp only [dropWord?]
          constructor
          · intro hdrop
            split at hdrop
            · rename_i hletter
              obtain ⟨spelled, rfl, hspelled⟩ := ih.mp hdrop
              exact ⟨char :: spelled, rfl, by rw [List.map_cons, List.map_cons, hletter, hspelled]⟩
            · simp at hdrop
          · rintro ⟨spelled, htext, hspelled⟩
            cases spelled with
            | nil => simp at hspelled
            | cons first spelled =>
                obtain ⟨rfl, rfl⟩ := List.cons.inj htext
                obtain ⟨hletter, hrest⟩ := List.cons.inj hspelled
                rw [if_pos hletter.symm]
                exact ih.mpr ⟨spelled, rfl, hrest⟩

theorem dropWord?_append {word : String} {text : List Char} (hspells : Spells word text)
    (rest : List Char) : dropWord? word.toList (text ++ rest) = some rest :=
  dropWord?_eq_some_iff.mpr ⟨text, rfl, hspells⟩

namespace Cursor

theorem skip_length (text rest : List Char) (offset : Nat) :
    (Cursor.mk (text ++ rest) offset).skip text.length =
      ⟨rest, offset + byteLength text⟩ := by
  simp [skip]

theorem skipWord?_append {word : String} {text : List Char} (hspells : Spells word text)
    {follows : List Char → Bool} {rest : List Char} (hfollows : follows rest = true)
    (offset : Nat) :
    (Cursor.mk (text ++ rest) offset).skipWord? follows word =
      some ⟨rest, offset + byteLength text⟩ := by
  simp only [skipWord?, dropWord?_append hspells, hfollows, if_true]
  rw [← hspells.length_eq, skip_length]

theorem exists_of_skipWord? {cursor later : Cursor} {follows : List Char → Bool} {word : String}
    (hskip : cursor.skipWord? follows word = some later) :
    ∃ text rest, cursor.rest = text ++ rest ∧ Spells word text ∧ follows rest = true := by
  unfold skipWord? at hskip
  split at hskip
  · rename_i rest hdrop
    obtain ⟨text, htext, hspells⟩ := dropWord?_eq_some_iff.mp hdrop
    split at hskip
    · rename_i hfollows
      exact ⟨text, rest, htext, hspells, hfollows⟩
    · exact nomatch hskip
  · exact nomatch hskip

end Cursor

namespace Keyword

theorem mem_all (keyword : Keyword) : keyword ∈ all := by
  rcases keyword with role | _ | _ | _ | _ | _ | _ | _ | kind | kind | _
  case declare => cases role <;> decide
  case opening => cases kind <;> decide
  case divider => cases kind <;> decide
  all_goals decide

theorem three_le_length (keyword : Keyword) : 3 ≤ keyword.word.length := by
  rcases keyword with role | _ | _ | _ | _ | _ | _ | _ | kind | kind | _
  case declare => cases role <;> decide
  case opening => cases kind <;> decide
  case divider => cases kind <;> decide
  all_goals decide

theorem eq_of_spells {left right : Keyword} {text : List Char} (hleft : Spells left.word text)
    (hright : Spells right.word text) : left = right := by
  have hall : ∀ left ∈ all, ∀ right ∈ all,
      left.word.toList.map Char.toLower = right.word.toList.map Char.toLower → left = right := by
    decide +kernel
  exact hall left left.mem_all right right.mem_all (hleft.symm.trans hright)

theorem lettered (keyword : Keyword) : Lettered keyword.word := by
  rcases keyword with role | _ | _ | _ | _ | _ | _ | _ | kind | kind | _
  case declare => cases role <;> decide
  case opening => cases kind <;> decide
  case divider => cases kind <;> decide
  all_goals decide

theorem followsKeyword_eq_false {keyword : Keyword} {text : List Char}
    (hspells : Spells keyword.word text) {char : Char} (hchar : char ∈ text) (rest : List Char) :
    Reading.followsKeyword (char :: rest) = false := by
  have hmark := hspells.not_mem_marks keyword.lettered hchar
  simp only [marks, List.mem_cons, List.not_mem_nil, or_false, not_or] at hmark
  simp [Reading.followsKeyword, isIndent, hmark]

theorem eq_of_append_eq {left right : Keyword} {first second afterFirst afterSecond : List Char}
    (htext : first ++ afterFirst = second ++ afterSecond) (hfirst : Spells left.word first)
    (hsecond : Spells right.word second)
    (hafterFirst : Reading.followsKeyword afterFirst = true)
    (hafterSecond : Reading.followsKeyword afterSecond = true) :
    left = right ∧ afterFirst = afterSecond := by
  rcases List.append_eq_append_iff.mp htext with ⟨more, rfl, rfl⟩ | ⟨more, rfl, rfl⟩
  · cases more with
    | nil =>
        rw [List.append_nil] at hsecond
        exact ⟨eq_of_spells hfirst hsecond, rfl⟩
    | cons char more =>
        rw [List.cons_append, followsKeyword_eq_false hsecond (by simp)] at hafterFirst
        exact nomatch hafterFirst
  · cases more with
    | nil =>
        rw [List.append_nil] at hfirst
        exact ⟨eq_of_spells hfirst hsecond, rfl⟩
    | cons char more =>
        rw [List.cons_append, followsKeyword_eq_false hfirst (by simp)] at hafterSecond
        exact nomatch hafterSecond

end Keyword

namespace Reading

/-- A keyword that is spelled and ended at the start of a text is the one that is read. -/
theorem keyword?_append {keyword : Keyword} {text rest : List Char}
    (hspells : Spells keyword.word text) (hfollows : followsKeyword rest = true) (offset : Nat) :
    keyword? ⟨text ++ rest, offset⟩ =
      .ok (some keyword, ⟨rest, offset + byteLength text⟩) := by
  have hskip := Cursor.skipWord?_append hspells hfollows offset
  have hfound : Keyword.all.findSome? (fun other =>
      ((Cursor.mk (text ++ rest) offset).skipWord? followsKeyword other.word).map
        fun later => (other, later)) = some (keyword, ⟨rest, offset + byteLength text⟩) := by
    cases hfind : Keyword.all.findSome? fun other =>
        ((Cursor.mk (text ++ rest) offset).skipWord? followsKeyword other.word).map
          fun later => (other, later) with
    | none =>
        have hnone := List.findSome?_eq_none_iff.mp hfind keyword keyword.mem_all
        rw [hskip] at hnone
        exact nomatch hnone
    | some found =>
        obtain ⟨other, -, hother⟩ := List.exists_of_findSome?_eq_some hfind
        obtain ⟨later, hlater, rfl⟩ := Option.map_eq_some_iff.mp hother
        obtain ⟨spelled, after, htext, hspelled, hafter⟩ := Cursor.exists_of_skipWord? hlater
        obtain ⟨rfl, -⟩ := Keyword.eq_of_append_eq htext hspells hspelled hfollows hafter
        rw [Option.some.inj (hlater.symm.trans hskip)]
  change Except.ok _ = _
  dsimp only
  rw [hfound]

theorem keyword?_eq_none {text : List Char} (offset : Nat)
    (hnone : ∀ (keyword : Keyword) spelled rest, text = spelled ++ rest →
      Spells keyword.word spelled → followsKeyword rest = false) :
    keyword? ⟨text, offset⟩ = .ok (none, ⟨text, offset⟩) := by
  have hfound : Keyword.all.findSome? (fun other =>
      ((Cursor.mk text offset).skipWord? followsKeyword other.word).map
        fun later => (other, later)) = none := by
    refine List.findSome?_eq_none_iff.mpr fun other _ => ?_
    cases hskip : (Cursor.mk text offset).skipWord? followsKeyword other.word with
    | none => rfl
    | some later =>
        obtain ⟨spelled, rest, htext, hspelled, hrest⟩ := Cursor.exists_of_skipWord? hskip
        rw [hnone other spelled rest htext hspelled] at hrest
        exact nomatch hrest
  change Except.ok _ = _
  dsimp only
  rw [hfound]

end Reading

end SequenceChart
