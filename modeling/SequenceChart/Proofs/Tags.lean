import SequenceChart.Text.Break

/-!
# Texts and their break tags

A tag begins with the only `<` in it and ends with the only `>`, so that two tags of a text are
one and the same or stand apart. A text can then be cut at its break tags in one way only: the
pieces between the tags hold no further tag, and the first tag is the first that a reader meets.
-/

namespace SequenceChart

/-- The piece begins with the only `<` in it and ends with the only `>`. -/
def Bracketed (piece : List Char) : Prop :=
  ∃ inside, piece = '<' :: (inside ++ ['>']) ∧ '<' ∉ inside ∧ '>' ∉ inside

namespace Bracketed

variable {tag other before after left right : List Char}

theorem eq_of_append_eq (htag : Bracketed tag) (hother : Bracketed other)
    (htext : tag ++ after = other ++ right) : tag = other ∧ after = right := by
  obtain ⟨inside, rfl, -, hinside⟩ := htag
  obtain ⟨insideOther, rfl, -, hinsideOther⟩ := hother
  simp only [List.cons_append, List.append_assoc, List.nil_append, List.cons.injEq,
    true_and] at htext
  have hsame : inside = insideOther ∧ '>' :: after = '>' :: right := by
    rcases List.append_eq_append_iff.mp htext with ⟨more, rfl, hmore⟩ | ⟨more, rfl, hmore⟩
    · cases more with
      | nil => exact ⟨(List.append_nil _).symm, hmore⟩
      | cons char more =>
          obtain ⟨rfl, -⟩ := List.cons.inj hmore
          exact absurd (List.mem_append_right _ List.mem_cons_self) hinsideOther
    · cases more with
      | nil => exact ⟨List.append_nil _, hmore.symm⟩
      | cons char more =>
          obtain ⟨rfl, -⟩ := List.cons.inj hmore
          exact absurd (List.mem_append_right _ List.mem_cons_self) hinside
  exact ⟨by rw [hsame.1], (List.cons.inj hsame.2).2⟩

/-- A later piece begins at the start of an earlier one or behind its end. -/
theorem eq_or_behind (htag : Bracketed tag) (hother : Bracketed other)
    (htext : tag ++ after = left ++ (other ++ right)) :
    (left = [] ∧ tag = other ∧ after = right) ∨
      ∃ gap, left = tag ++ gap ∧ after = gap ++ (other ++ right) := by
  rcases List.append_eq_append_iff.mp htext with ⟨gap, rfl, hafter⟩ | ⟨more, hmore, hright⟩
  · exact .inr ⟨gap, rfl, hafter⟩
  · cases left with
    | nil => exact .inl ⟨rfl, htag.eq_of_append_eq hother htext⟩
    | cons char left =>
        cases more with
        | nil =>
            rw [List.append_nil] at hmore
            exact .inr ⟨[], by rw [hmore, List.append_nil], hright.symm⟩
        | cons opening more =>
            -- The other piece would begin inside this one, at a `<` that is not the first.
            obtain ⟨inside, rfl, hopening, -⟩ := htag
            obtain ⟨insideOther, rfl, -, -⟩ := hother
            obtain ⟨rfl, -⟩ := List.cons.inj hright
            obtain ⟨-, hinside⟩ := List.cons.inj hmore
            have hmem : '<' ∈ inside ++ ['>'] := by
              rw [hinside]
              exact List.mem_append_right _ List.mem_cons_self
            rcases List.mem_append.mp hmem with hmem | hmem
            · exact absurd hmem hopening
            · exact absurd (List.mem_singleton.mp hmem) (by decide)

/-- Two pieces in brackets stand at the same place, or one stands before the other. -/
theorem same_or_apart (htag : Bracketed tag) (hother : Bracketed other)
    (htext : before ++ tag ++ after = left ++ other ++ right) :
    (before = left ∧ tag = other ∧ after = right) ∨
      (∃ gap, before = left ++ other ++ gap ∧ right = gap ++ tag ++ after) ∨
      ∃ gap, left = before ++ tag ++ gap ∧ after = gap ++ other ++ right := by
  simp only [List.append_assoc] at htext ⊢
  rcases List.append_eq_append_iff.mp htext with ⟨more, rfl, hmore⟩ | ⟨more, rfl, hmore⟩
  · rcases htag.eq_or_behind hother hmore with ⟨rfl, hsame⟩ | ⟨gap, rfl, hafter⟩
    · exact .inl ⟨(List.append_nil _).symm, hsame⟩
    · exact .inr (.inr ⟨gap, rfl, hafter⟩)
  · rcases hother.eq_or_behind htag hmore with ⟨rfl, hsame⟩ | ⟨gap, rfl, hright⟩
    · exact .inl ⟨List.append_nil _, hsame.1.symm, hsame.2.symm⟩
    · exact .inr (.inl ⟨gap, rfl, hright⟩)

end Bracketed

/-- A tag with the name `br` in letters of any case. Spaces of one kind may follow the name, and
a slash them. -/
def IsTag (isSpace : Char → Bool) (tag : List Char) : Prop :=
  ∃ name spaces slash, tag = '<' :: (name ++ spaces ++ slash ++ ['>']) ∧
    name.map Char.toLower = ['b', 'r'] ∧ (∀ char ∈ spaces, isSpace char = true) ∧
    (slash = [] ∨ slash = ['/'])

/-- A tag at which a text is broken. -/
def IsBreakTag (tag : List Char) : Prop :=
  IsTag isTagSpace tag

/-- No break tag stands in the text. -/
def Unbroken (text : List Char) : Prop :=
  ∀ tag, IsBreakTag tag → ¬tag <:+: text

theorem IsTag.bracketed {isSpace : Char → Bool} {tag : List Char} (htag : IsTag isSpace tag)
    (hopening : isSpace '<' = false) (hclosing : isSpace '>' = false) : Bracketed tag := by
  obtain ⟨name, spaces, slash, rfl, hname, hspaces, hslash⟩ := htag
  have hnone {bracket : Char} (hletter : bracket.toLower ∉ ['b', 'r'])
      (hspace : isSpace bracket = false) (hbar : bracket ∉ ['/']) :
      bracket ∉ name ++ spaces ++ slash := by
    intro hmem
    rw [List.mem_append, List.mem_append] at hmem
    rcases hmem with (hmem | hmem) | hmem
    · have hlower := List.mem_map_of_mem (f := Char.toLower) hmem
      rw [hname] at hlower
      exact hletter hlower
    · exact Bool.noConfusion (hspace.symm.trans (hspaces bracket hmem))
    · rcases hslash with rfl | rfl
      · exact List.not_mem_nil hmem
      · exact hbar hmem
  exact ⟨name ++ spaces ++ slash, rfl, hnone (by decide) hopening (by decide),
    hnone (by decide) hclosing (by decide)⟩

theorem IsBreakTag.bracketed {tag : List Char} (htag : IsBreakTag tag) : Bracketed tag :=
  IsTag.bracketed htag rfl rfl

theorem closeTag?_eq_some_iff {text rest : List Char} :
    closeTag? text = some rest ↔
      ∃ slash, (slash = [] ∨ slash = ['/']) ∧ text = slash ++ '>' :: rest := by
  constructor
  · intro hclose
    unfold closeTag? at hclose
    split at hclose
    · obtain rfl := Option.some.inj hclose
      exact ⟨['/'], .inr rfl, rfl⟩
    · obtain rfl := Option.some.inj hclose
      exact ⟨[], .inl rfl, rfl⟩
    · exact nomatch hclose
  · rintro ⟨slash, rfl | rfl, rfl⟩ <;> rfl

theorem afterBreak?_eq_some_iff {text rest : List Char} :
    afterBreak? text = some rest ↔ ∃ tag, IsBreakTag tag ∧ text = tag ++ rest := by
  constructor
  · intro hbreak
    unfold afterBreak? at hbreak
    split at hbreak
    · rename_i first second tail
      split at hbreak
      · rename_i hname
        obtain ⟨slash, hslash, htail⟩ := closeTag?_eq_some_iff.mp hbreak
        refine ⟨'<' :: ([first, second] ++ tail.takeWhile isTagSpace ++ slash ++ ['>']),
          ⟨_, _, _, rfl, by rw [List.map_cons, hname.1, List.map_cons, hname.2, List.map_nil],
            List.all_eq_true.mp List.all_takeWhile, hslash⟩, ?_⟩
        calc '<' :: first :: second :: tail
            = '<' :: first :: second :: (tail.takeWhile isTagSpace ++ tail.dropWhile isTagSpace) :=
              by rw [List.takeWhile_append_dropWhile]
          _ = _ := by rw [htail]; simp
      · exact nomatch hbreak
    · exact nomatch hbreak
  · rintro ⟨tag, ⟨name, spaces, slash, rfl, hname, hspaces, hslash⟩, rfl⟩
    obtain ⟨first, name, rfl, hfirst, hname⟩ := List.map_eq_cons_iff.mp hname
    obtain ⟨second, name, rfl, hsecond, hname⟩ := List.map_eq_cons_iff.mp hname
    obtain rfl := List.map_eq_nil_iff.mp hname
    have hdrop : (spaces ++ (slash ++ '>' :: rest)).dropWhile isTagSpace =
        slash ++ '>' :: rest := by
      rw [List.dropWhile_append_of_pos hspaces]
      rcases hslash with rfl | rfl <;> rfl
    simp only [List.cons_append, List.nil_append, List.append_assoc, afterBreak?, hfirst, hsecond,
      and_self, if_true]
    rw [hdrop]
    exact closeTag?_eq_some_iff.mpr ⟨slash, hslash, rfl⟩

theorem afterBreak?_append {text rest : List Char} (hbreak : afterBreak? text = some rest)
    (behind : List Char) : afterBreak? (text ++ behind) = some (rest ++ behind) := by
  obtain ⟨tag, htag, rfl⟩ := afterBreak?_eq_some_iff.mp hbreak
  exact afterBreak?_eq_some_iff.mpr ⟨tag, htag, List.append_assoc _ _ _⟩

theorem afterBreak?_eq_none_of_unbroken {text : List Char} (hunbroken : Unbroken text) :
    afterBreak? text = none := by
  rw [Option.eq_none_iff_forall_ne_some]
  intro rest hbreak
  obtain ⟨tag, htag, rfl⟩ := afterBreak?_eq_some_iff.mp hbreak
  exact hunbroken tag htag (List.prefix_append tag rest).isInfix

theorem Unbroken.of_part {text part : List Char} (hunbroken : Unbroken text)
    (hpart : part <:+: text) : Unbroken part :=
  fun tag htag hinside => hunbroken tag htag (hinside.trans hpart)

theorem unbroken_cons {char : Char} {text : List Char} (hstart : afterBreak? (char :: text) = none)
    (hunbroken : Unbroken text) : Unbroken (char :: text) := by
  intro tag htag hinside
  rcases List.infix_cons_iff.mp hinside with hstarts | hinside
  · obtain ⟨rest, hrest⟩ := hstarts
    rw [afterBreak?_eq_some_iff.mpr ⟨tag, htag, hrest.symm⟩] at hstart
    exact nomatch hstart
  · exact hunbroken tag htag hinside

/-- In front of the first tag of a text no other one begins. -/
theorem afterBreak?_before_tag {line tag rest : List Char} {char : Char} (htag : IsBreakTag tag)
    (hunbroken : Unbroken (char :: line)) : afterBreak? (char :: line ++ tag ++ rest) = none := by
  rw [Option.eq_none_iff_forall_ne_some]
  intro behind hbreak
  obtain ⟨other, hother, htext⟩ := afterBreak?_eq_some_iff.mp hbreak
  have hboth : char :: line ++ tag ++ rest = [] ++ other ++ behind := htext
  rcases htag.bracketed.same_or_apart hother.bracketed hboth with
    ⟨hnil, -⟩ | ⟨gap, hline, -⟩ | ⟨gap, hnil, -⟩
  · exact nomatch hnil
  · refine hunbroken other hother ?_
    rw [hline]
    exact (List.prefix_append other gap).isInfix
  · exact nomatch hnil

/-! ### Cuts

The induction is from tag to tag: a text is unbroken, or it is an unbroken line, a tag and a shorter
text. Within the line no reader finds a tag, for it would run into the one behind, and hold two
`<`. -/

theorem splitBreaks_tag {tag : List Char} (htag : IsBreakTag tag) (rest : List Char) :
    splitBreaks (tag ++ rest) = [] :: splitBreaks rest := by
  have hbreak : afterBreak? (tag ++ rest) = some rest :=
    afterBreak?_eq_some_iff.mpr ⟨tag, htag, rfl⟩
  obtain ⟨inside, rfl, -⟩ := htag.bracketed
  rw [List.cons_append] at hbreak ⊢
  rw [splitBreaks]
  split
  · rename_i after hafter
    rw [Option.some.inj (hafter.symm.trans hbreak)]
  · rename_i hafter
    cases hafter.symm.trans hbreak

theorem splitBreaks_cons {char : Char} {rest : List Char}
    (hstart : afterBreak? (char :: rest) = none) :
    splitBreaks (char :: rest) = consLine char (splitBreaks rest) := by
  rw [splitBreaks]
  split
  · rename_i after hafter
    cases hafter.symm.trans hstart
  · rfl

theorem splitBreaks_of_unbroken {text : List Char} (hunbroken : Unbroken text) :
    splitBreaks text = [text] := by
  induction text with
  | nil => rw [splitBreaks]
  | cons char rest ih =>
      rw [splitBreaks_cons (afterBreak?_eq_none_of_unbroken hunbroken),
        ih (hunbroken.of_part (List.suffix_cons char rest).isInfix)]
      rfl

/-- A text is cut at its first tag. -/
theorem splitBreaks_append_tag {line tag : List Char} (hunbroken : Unbroken line)
    (htag : IsBreakTag tag) (rest : List Char) :
    splitBreaks (line ++ tag ++ rest) = line :: splitBreaks rest := by
  induction line with
  | nil => exact splitBreaks_tag htag rest
  | cons char line ih =>
      have hstart : afterBreak? (char :: line ++ tag ++ rest) = none :=
        afterBreak?_before_tag htag hunbroken
      rw [List.cons_append, List.cons_append] at hstart ⊢
      rw [splitBreaks_cons hstart,
        ih (hunbroken.of_part (List.suffix_cons char line).isInfix)]
      rfl

theorem unbroken_or_exists_tag (text : List Char) :
    Unbroken text ∨ ∃ line tag rest, text = line ++ tag ++ rest ∧ Unbroken line ∧
      IsBreakTag tag := by
  have hempty : Unbroken [] := by
    intro tag htag hinside
    obtain ⟨inside, rfl, -⟩ := htag.bracketed
    exact nomatch List.infix_nil.mp hinside
  induction text with
  | nil => exact .inl hempty
  | cons char rest ih =>
      cases hstart : afterBreak? (char :: rest) with
      | some after =>
          obtain ⟨tag, htag, htext⟩ := afterBreak?_eq_some_iff.mp hstart
          exact .inr ⟨[], tag, after, htext, hempty, htag⟩
      | none =>
          rcases ih with hunbroken | ⟨line, tag, after, rfl, hline, htag⟩
          · exact .inl (unbroken_cons hstart hunbroken)
          · refine .inr ⟨char :: line, tag, after, rfl, unbroken_cons ?_ hline, htag⟩
            rw [Option.eq_none_iff_forall_ne_some]
            intro behind hbreak
            have hlonger := afterBreak?_append hbreak (tag ++ after)
            rw [List.cons_append, ← List.append_assoc] at hlonger
            exact nomatch hlonger.symm.trans hstart

/-- Every text is whole, or has a first tag and goes on behind it. -/
theorem breaks_induction {motive : List Char → Prop}
    (whole : ∀ text, Unbroken text → motive text)
    (cut : ∀ line tag rest, Unbroken line → IsBreakTag tag → motive rest →
      motive (line ++ tag ++ rest)) (text : List Char) : motive text := by
  induction hlength : text.length using Nat.strongRecOn generalizing text with
  | ind length ih =>
      rcases unbroken_or_exists_tag text with hunbroken | ⟨line, tag, rest, rfl, hline, htag⟩
      · exact whole text hunbroken
      · refine cut line tag rest hline htag (ih rest.length ?_ rest rfl)
        obtain ⟨inside, rfl, -⟩ := htag.bracketed
        simp only [List.length_append, List.length_cons] at hlength
        omega

theorem splitBreaks_append {tag : List Char} (htag : IsBreakTag tag) (left right : List Char) :
    splitBreaks (left ++ tag ++ right) = splitBreaks left ++ splitBreaks right := by
  induction left using breaks_induction with
  | whole line hline =>
      rw [splitBreaks_append_tag hline htag, splitBreaks_of_unbroken hline]
      rfl
  | cut line first rest hline hfirst ih =>
      have hsplit : line ++ first ++ rest ++ tag ++ right =
          line ++ first ++ (rest ++ tag ++ right) := by
        simp only [List.append_assoc]
      rw [hsplit, splitBreaks_append_tag hline hfirst, splitBreaks_append_tag hline hfirst, ih]
      rfl

theorem part_of_mem_splitBreaks {text line : List Char} (hline : line ∈ splitBreaks text) :
    line <:+: text := by
  induction text using breaks_induction with
  | whole text hunbroken =>
      rw [splitBreaks_of_unbroken hunbroken] at hline
      obtain rfl := List.mem_singleton.mp hline
      exact List.infix_rfl
  | cut first tag rest hfirst htag ih =>
      rw [splitBreaks_append_tag hfirst htag] at hline
      rcases List.mem_cons.mp hline with rfl | hline
      · exact ((List.prefix_append _ tag).trans (List.prefix_append _ rest)).isInfix
      · exact (ih hline).trans (List.suffix_append _ rest).isInfix

/-- A piece in brackets that is no tag is left whole. -/
theorem exists_line_of_bracketed {piece text : List Char} (hpiece : Bracketed piece)
    (hother : ¬IsBreakTag piece) (hinside : piece <:+: text) :
    ∃ line ∈ splitBreaks text, piece <:+: line := by
  induction text using breaks_induction with
  | whole text hunbroken =>
      rw [splitBreaks_of_unbroken hunbroken]
      exact ⟨text, List.mem_singleton_self text, hinside⟩
  | cut line tag rest hline htag ih =>
      rw [splitBreaks_append_tag hline htag]
      obtain ⟨left, right, htext⟩ := hinside
      rcases hpiece.same_or_apart htag.bracketed htext with
        ⟨-, rfl, -⟩ | ⟨gap, rfl, hrest⟩ | ⟨gap, rfl, -⟩
      · exact absurd htag hother
      · have hlater : piece <:+: rest := by
          rw [hrest]
          exact List.infix_append gap piece right
        obtain ⟨later, hmem, hpart⟩ := ih hlater
        exact ⟨later, List.mem_cons_of_mem _ hmem, hpart⟩
      · exact ⟨_, List.mem_cons_self, List.infix_append left piece gap⟩

/-- The text is cut into the lines at its leftmost break tags: it has none and is one line, or no
other tag begins before the one behind the first line, and what follows is cut in the same way. -/
inductive CutLeftmost : List Char → List (List Char) → Prop
  | whole {text : List Char}
      (hnone : ∀ before tag after, text = before ++ tag ++ after → ¬IsBreakTag tag) :
      CutLeftmost text [text]
  | cut {line tag rest : List Char} {lines : List (List Char)} (htag : IsBreakTag tag)
      (hleftmost : ∀ before other after, line ++ tag ++ rest = before ++ other ++ after →
        IsBreakTag other → line.length ≤ before.length)
      (hrest : CutLeftmost rest lines) : CutLeftmost (line ++ tag ++ rest) (line :: lines)

theorem Unbroken.leftmost {line tag rest before other after : List Char}
    (hunbroken : Unbroken line) (htag : IsBreakTag tag)
    (htext : line ++ tag ++ rest = before ++ other ++ after) (hother : IsBreakTag other) :
    line.length ≤ before.length := by
  rcases htag.bracketed.same_or_apart hother.bracketed htext with
    ⟨rfl, -⟩ | ⟨gap, rfl, -⟩ | ⟨gap, rfl, -⟩
  · exact Nat.le_refl _
  · exact absurd (List.infix_append before other gap) (hunbroken other hother)
  · rw [List.append_assoc, List.length_append]
    exact Nat.le_add_right _ _

theorem unbroken_of_leftmost {line behind : List Char}
    (hleftmost : ∀ before other after, line ++ behind = before ++ other ++ after →
      IsBreakTag other → line.length ≤ before.length) : Unbroken line := by
  rintro other hother ⟨before, after, rfl⟩
  have hle := hleftmost before other (after ++ behind) (List.append_assoc _ _ _) hother
  obtain ⟨inside, rfl, -⟩ := hother.bracketed
  simp only [List.length_append, List.length_cons] at hle
  omega

theorem cutLeftmost_splitBreaks (text : List Char) : CutLeftmost text (splitBreaks text) := by
  induction text using breaks_induction with
  | whole text hunbroken =>
      rw [splitBreaks_of_unbroken hunbroken]
      refine .whole fun before tag after htext htag => hunbroken tag htag ?_
      rw [htext]
      exact List.infix_append before tag after
  | cut line tag rest hline htag ih =>
      rw [splitBreaks_append_tag hline htag]
      exact .cut htag (fun _ _ _ => hline.leftmost htag) ih

theorem CutLeftmost.splitBreaks_eq {text : List Char} {lines : List (List Char)}
    (hcut : CutLeftmost text lines) : splitBreaks text = lines := by
  induction hcut with
  | whole hnone =>
      refine splitBreaks_of_unbroken fun tag htag hinside => ?_
      obtain ⟨before, after, rfl⟩ := hinside
      exact hnone before tag after rfl htag
  | @cut line tag rest lines htag hleftmost hrest ih =>
      simp only [List.append_assoc] at hleftmost
      have hline := unbroken_of_leftmost (fun before other after htext =>
        hleftmost before other after (htext.trans (List.append_assoc _ _ _)))
      rw [splitBreaks_append_tag hline htag, ih]

/-- The lines, with the tags between them. -/
def interleaved : List (List Char) → List (List Char) → List Char
  | line :: lines, tag :: tags => line ++ tag ++ interleaved lines tags
  | lines, _ => lines.flatten

/-- The lines and the tags between them make up the text, and no tag is left in a line. -/
structure Rebuilds (text : List Char) (lines tags : List (List Char)) : Prop where
  count : lines.length = tags.length + 1
  text_eq : interleaved lines tags = text
  isBreakTag : ∀ tag ∈ tags, IsBreakTag tag
  unbroken : ∀ line ∈ lines, Unbroken line

theorem exists_rebuilds (text : List Char) : ∃ tags, Rebuilds text (splitBreaks text) tags := by
  induction text using breaks_induction with
  | whole text hunbroken =>
      rw [splitBreaks_of_unbroken hunbroken]
      exact ⟨[], rfl, List.append_nil text, fun _ hmem => absurd hmem List.not_mem_nil,
        List.forall_mem_singleton.mpr hunbroken⟩
  | cut line tag rest hline htag ih =>
      obtain ⟨tags, hrest⟩ := ih
      rw [splitBreaks_append_tag hline htag]
      exact ⟨tag :: tags, congrArg (· + 1) hrest.count,
        congrArg (line ++ tag ++ ·) hrest.text_eq,
        List.forall_mem_cons.mpr ⟨htag, hrest.isBreakTag⟩,
        List.forall_mem_cons.mpr ⟨hline, hrest.unbroken⟩⟩

theorem unbroken_of_mem_splitBreaks {text line : List Char} (hline : line ∈ splitBreaks text) :
    Unbroken line := by
  obtain ⟨tags, hrebuilds⟩ := exists_rebuilds text
  exact hrebuilds.unbroken line hline

theorem Rebuilds.splitBreaks_eq {text : List Char} {lines tags : List (List Char)}
    (hrebuilds : Rebuilds text lines tags) : splitBreaks text = lines := by
  induction tags generalizing text lines with
  | nil =>
      obtain ⟨line, rfl⟩ := List.length_eq_one_iff.mp hrebuilds.count
      have htext : line ++ [] = text := hrebuilds.text_eq
      rw [← htext, List.append_nil]
      exact splitBreaks_of_unbroken (hrebuilds.unbroken line (List.mem_singleton_self line))
  | cons tag tags ih =>
      obtain ⟨line, lines, rfl⟩ := List.exists_cons_of_length_eq_add_one hrebuilds.count
      obtain ⟨htag, htags⟩ := List.forall_mem_cons.mp hrebuilds.isBreakTag
      obtain ⟨hline, hlines⟩ := List.forall_mem_cons.mp hrebuilds.unbroken
      have hrest : Rebuilds (interleaved lines tags) lines tags :=
        ⟨Nat.succ.inj hrebuilds.count, rfl, htags, hlines⟩
      rw [← hrebuilds.text_eq, interleaved, splitBreaks_append_tag hline htag, ih hrest]

/-- **Breaks are exact.** A text is cut at its leftmost break tags, from left to right, and into
nothing else: with the tags put back between them the lines are the text, and they are the only
lines without tags that are. So a tag between two texts breaks them apart, whatever they hold. -/
theorem splitBreaks_exact :
    (∀ text lines, splitBreaks text = lines ↔ CutLeftmost text lines) ∧
      (∀ text lines, splitBreaks text = lines ↔ ∃ tags, Rebuilds text lines tags) ∧
      ∀ left tag right, IsBreakTag tag →
        splitBreaks (left ++ tag ++ right) = splitBreaks left ++ splitBreaks right := by
  refine ⟨fun text lines => ⟨?_, CutLeftmost.splitBreaks_eq⟩,
    fun text lines => ⟨?_, ?_⟩, fun left tag right htag => splitBreaks_append htag left right⟩
  · rintro rfl
    exact cutLeftmost_splitBreaks text
  · rintro rfl
    exact exists_rebuilds text
  · rintro ⟨tags, hrebuilds⟩
    exact hrebuilds.splitBreaks_eq

/-- A tag that is left unfinished does not reach into the one behind it. -/
theorem unfinished_splitBreaks :
    IsBreakTag "<bR \t/>".toList ∧
      splitBreaks ("a<br".toList ++ "<bR \t/>".toList ++ "é<br/>>".toList) =
        splitBreaks "a<br".toList ++ splitBreaks "é<br/>>".toList := by
  have htag : IsBreakTag "<bR \t/>".toList :=
    ⟨['b', 'R'], [' ', '\t'], ['/'], rfl, rfl, List.all_eq_true.mp rfl, .inr rfl⟩
  exact ⟨htag, splitBreaks_exact.2.2 _ _ _ htag⟩

end SequenceChart
