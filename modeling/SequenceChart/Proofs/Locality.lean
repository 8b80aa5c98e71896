import SequenceChart.Proofs.Lookahead
import SequenceChart.Proofs.Occurrences
import SequenceChart.Proofs.Spelling

/-!
# Locality of readings

A reading looks no further than one character behind the place where its statement ends. What
follows can be cut off, and the reading goes on as before.

A cut leaves a part of the text behind a statement. Two cursors match if the same text lies before
them up to there. The readings are taken one by one, as in the proofs that they advance: a reading
that stops before the place of the cut stops at the matching place where the text is cut.
-/

namespace SequenceChart

/-- What is left of the text behind a statement still ends the statement. -/
structure Cut (tail left : List Char) : Prop where
  ends : endsStatement tail = true
  ends_left : endsStatement left = true
  head?_eq : left.head? = tail.head?
  part : left <+: tail

/-- The same text lies before both cursors, up to the place of the cut. -/
def Cursor.Matches (tail left : List Char) (cursor twin : Cursor) : Prop :=
  ∃ kept, cursor.rest = kept ++ tail ∧ twin.rest = kept ++ left ∧ twin.offset = cursor.offset

variable {tail left kept : List Char}

theorem head?_mem_of_ends {char : Char} (hends : endsStatement tail = true)
    (hhead : tail.head? = some char) : char ∈ ['\n', ';', '#', '%'] := by
  obtain ⟨rest, rfl⟩ := List.head?_eq_some_iff.mp hhead
  rw [endsStatement_cons] at hends
  simp only [Bool.or_eq_true, Bool.and_eq_true, beq_iff_eq] at hends
  rcases hends with ((rfl | rfl) | rfl) | ⟨rfl, -⟩ <;> simp

theorem Cut.head?_append (hcut : Cut tail left) (text : List Char) :
    (text ++ left).head? = (text ++ tail).head? := by
  rw [List.head?_append, List.head?_append, hcut.head?_eq]

theorem Cut.endsStatement_append (hcut : Cut tail left) (text : List Char) :
    endsStatement (text ++ left) = endsStatement (text ++ tail) := by
  cases text with
  | nil => exact hcut.ends_left.trans hcut.ends.symm
  | cons char text =>
      rw [List.cons_append, List.cons_append, endsStatement_cons, endsStatement_cons,
        hcut.head?_append]

theorem Cut.endsActor_append (hcut : Cut tail left) (text : List Char) :
    Reading.endsActor (text ++ left) = Reading.endsActor (text ++ tail) := by
  cases text with
  | nil =>
      rw [List.nil_append, List.nil_append, Reading.endsActor_of_endsStatement hcut.ends,
        Reading.endsActor_of_endsStatement hcut.ends_left]
  | cons char text =>
      have hends := hcut.endsStatement_append (char :: text)
      rw [List.cons_append, List.cons_append] at hends ⊢
      rw [Reading.endsActor_cons, Reading.endsActor_cons, Reading.startsArrow_cons,
        Reading.startsArrow_cons, hends, hcut.head?_append]

namespace Cursor

variable {cursor twin : Cursor}

theorem Matches.skip {count : Nat} (hrest : cursor.rest = kept ++ tail)
    (htwin : twin.rest = kept ++ left) (hoffset : twin.offset = cursor.offset)
    (hcount : count ≤ kept.length) : Matches tail left (cursor.skip count) (twin.skip count) := by
  refine ⟨kept.drop count, ?_, ?_, ?_⟩
  · rw [Cursor.skip, hrest, List.drop_append_of_le_length hcount]
  · rw [Cursor.skip, htwin, List.drop_append_of_le_length hcount]
  · simp only [Cursor.skip, hrest, htwin, hoffset, List.take_append_of_le_length hcount]

theorem takeWhile_isIndent_append (hends : endsStatement tail = true) (text : List Char) :
    (text ++ tail).takeWhile isIndent = text.takeWhile isIndent := by
  induction text with
  | nil =>
      cases htail : tail with
      | nil => rfl
      | cons char rest =>
          have hchar := head?_mem_of_ends hends (by rw [htail]; rfl)
          simp only [List.mem_cons, List.not_mem_nil, or_false] at hchar
          rcases hchar with rfl | rfl | rfl | rfl <;> rfl
  | cons char text ih =>
      rw [List.cons_append, List.takeWhile_cons, List.takeWhile_cons, ih]

theorem Matches.skipIndent (hcut : Cut tail left) (hmatches : Matches tail left cursor twin) :
    Matches tail left cursor.skipIndent twin.skipIndent := by
  obtain ⟨kept, hrest, htwin, hoffset⟩ := hmatches
  unfold Cursor.skipIndent
  rw [hrest, htwin, takeWhile_isIndent_append hcut.ends, takeWhile_isIndent_append hcut.ends_left]
  exact Matches.skip hrest htwin hoffset (List.takeWhile_sublist _).length_le

/-- What a step of a cursor does before a cut, it does before what is left. -/
def Alike (tail left : List Char) (found twin : Option Cursor) : Prop :=
  (found = none ∧ twin = none) ∨
    ∃ later laterTwin, found = some later ∧ twin = some laterTwin ∧
      Matches tail left later laterTwin

theorem dropWord?_append_cut {word : String} (hlettered : Lettered word)
    (hends : endsStatement tail = true) (text : List Char) :
    dropWord? word.toList (text ++ tail) = (dropWord? word.toList text).map (· ++ tail) := by
  have hmarks : ∀ letter ∈ word.toList, ∀ mark ∈ marks, letter.toLower ≠ mark.toLower := by
    intro letter hletter mark hmark heq
    have hne := List.all_eq_true.mp (List.all_eq_true.mp hlettered letter hletter) mark hmark
    exact bne_iff_ne.mp hne heq.symm
  generalize word.toList = letters at hmarks
  induction letters generalizing text with
  | nil => rfl
  | cons letter letters ih =>
      cases text with
      | nil =>
          cases htail : tail with
          | nil => rfl
          | cons char rest =>
              have hchar : char ∈ marks := by
                have hmem := head?_mem_of_ends hends (by rw [htail]; rfl)
                simp only [List.mem_cons, List.not_mem_nil, or_false] at hmem
                rcases hmem with rfl | rfl | rfl | rfl <;> decide
              have hne := hmarks letter (List.mem_cons_self ..) char hchar
              simp [dropWord?, hne]
      | cons char text =>
          rw [List.cons_append, dropWord?, dropWord?]
          by_cases hletter : letter.toLower = char.toLower
          · rw [if_pos hletter, if_pos hletter]
            exact ih text fun other hother => hmarks other (List.mem_cons_of_mem _ hother)
          · rw [if_neg hletter, if_neg hletter]
            rfl

theorem alike_skipWord? {word : String} {follows : List Char → Bool} (hcut : Cut tail left)
    (hlettered : Lettered word)
    (hfollows : ∀ text other : List Char, text.head? = other.head? → follows text = follows other)
    (hmatches : Matches tail left cursor twin) :
    Alike tail left (cursor.skipWord? follows word) (twin.skipWord? follows word) := by
  obtain ⟨kept, hrest, htwin, hoffset⟩ := hmatches
  unfold Cursor.skipWord?
  rw [hrest, htwin, dropWord?_append_cut hlettered hcut.ends,
    dropWord?_append_cut hlettered hcut.ends_left]
  cases hdrop : dropWord? word.toList kept with
  | none => exact .inl ⟨rfl, rfl⟩
  | some rest =>
      have hsame : follows (rest ++ left) = follows (rest ++ tail) :=
        hfollows _ _ (hcut.head?_append rest)
      simp only [Option.map_some, hsame]
      by_cases hnext : follows (rest ++ tail) = true
      · have hlength := dropWord?_length hdrop
        rw [String.length_toList] at hlength
        rw [if_pos hnext, if_pos hnext]
        exact .inr ⟨_, _, rfl, rfl, Matches.skip hrest htwin hoffset (by omega)⟩
      · rw [if_neg hnext, if_neg hnext]
        exact .inl ⟨rfl, rfl⟩

end Cursor

namespace Reading

theorem followsWord_congr (text other : List Char) (hhead : text.head? = other.head?) :
    followsWord text = followsWord other := by
  cases text <;> cases other <;> simp_all [followsWord]

theorem followsKeyword_congr (text other : List Char) (hhead : text.head? = other.head?) :
    followsKeyword text = followsKeyword other := by
  cases text <;> cases other <;> simp_all [followsKeyword]

variable {α β : Type} {reading : Reading α}

/-- A reading that stops before the cut finds the same before what is left. -/
structure Local (reading : Reading α) : Prop where
  advances : Advances reading
  cut : ∀ {tail left : List Char} {cursor twin later : Cursor} {value : α}, Cut tail left →
    cursor.Matches tail left twin → reading cursor = .ok (value, later) → tail <:+ later.rest →
      ∃ laterTwin, reading twin = .ok (value, laterTwin) ∧ later.Matches tail left laterTwin

theorem local_pure (value : α) : Local (pure value) where
  advances := advances_pure value
  cut := by
    intro tail left cursor twin later found hcut hmatches hpure _
    obtain ⟨rfl, rfl⟩ := Prod.mk.inj (Except.ok.inj hpure)
    exact ⟨twin, rfl, hmatches⟩

theorem local_throw (complaint : Complaint) : Local (throw complaint : Reading α) where
  advances := advances_throw complaint
  cut := by
    intro tail left cursor twin later found _ _ hthrow
    exact absurd hthrow (throw_ne_ok _ _ _)

theorem local_bind {next : α → Reading β} (hreading : Local reading)
    (hnext : ∀ value, Local (next value)) : Local (reading >>= next) where
  advances := advances_bind hreading.advances fun value => (hnext value).advances
  cut := by
    intro tail left cursor twin later found hcut hmatches hbind hkept
    obtain ⟨value, between, hfirst, hlast⟩ := bind_eq_ok.mp hbind
    have hbetween : tail <:+ between.rest := by
      obtain ⟨passed, hrest, -⟩ := (hnext value).advances _ _ _ hlast
      rw [hrest]
      exact hkept.trans (List.suffix_append _ _)
    obtain ⟨betweenTwin, htwin, hmatches⟩ := hreading.cut hcut hmatches hfirst hbetween
    obtain ⟨laterTwin, hlaterTwin, hmatches⟩ := (hnext value).cut hcut hmatches hlast hkept
    exact ⟨laterTwin, bind_eq_ok.mpr ⟨value, betweenTwin, htwin, hlaterTwin⟩, hmatches⟩

theorem local_ite (condition : Prop) [Decidable condition] {first second : Reading α}
    (hfirst : Local first) (hsecond : Local second) :
    Local (if condition then first else second) := by
  split
  · exact hfirst
  · exact hsecond

theorem local_modifyGet {step : Cursor → α × Cursor} (hadvances : Advances (modifyGet step))
    (hstep : ∀ {tail left : List Char} {cursor twin : Cursor}, Cut tail left →
      cursor.Matches tail left twin → tail <:+ (step cursor).2.rest →
        (step twin).1 = (step cursor).1 ∧ (step cursor).2.Matches tail left (step twin).2) :
    Local (modifyGet step) where
  advances := hadvances
  cut := by
    intro tail left cursor twin later value hcut hmatches hread hkept
    have heq : step cursor = (value, later) := Except.ok.inj hread
    obtain ⟨hvalue, hlater⟩ := hstep hcut hmatches (by rw [heq]; exact hkept)
    rw [heq] at hvalue hlater
    exact ⟨(step twin).2, congrArg Except.ok (Prod.ext hvalue rfl), hlater⟩

theorem skipIndent_local : Local skipIndent :=
  local_modifyGet skipIndent_advances fun hcut hmatches _ => ⟨rfl, hmatches.skipIndent hcut⟩

theorem takeUntil_append_cut {stops : List Char → Bool} {tail left : List Char}
    (hstops : ∀ text, stops (text ++ left) = stops (text ++ tail)) (htail : stops tail = true)
    (text : List Char) :
    takeUntil stops (text ++ left) = takeUntil stops (text ++ tail) ∧
      (takeUntil stops (text ++ tail)).length ≤ text.length := by
  induction text with
  | nil =>
      have hleft : stops left = true := (hstops []).trans htail
      have hnone : ∀ rest : List Char, stops rest = true → takeUntil stops rest = [] := by
        intro rest hrest
        cases rest with
        | nil => rfl
        | cons char rest => rw [takeUntil, if_pos hrest]
      rw [List.nil_append, List.nil_append, hnone left hleft, hnone tail htail]
      exact ⟨rfl, Nat.le_refl _⟩
  | cons char text ih =>
      have hhead := hstops (char :: text)
      rw [List.cons_append, List.cons_append] at hhead ⊢
      rw [takeUntil, takeUntil, hhead]
      by_cases hstop : stops (char :: (text ++ tail)) = true
      · rw [if_pos hstop, if_pos hstop]
        exact ⟨rfl, Nat.zero_le _⟩
      · rw [if_neg hstop, if_neg hstop, ih.1]
        exact ⟨rfl, Nat.succ_le_succ ih.2⟩

theorem textUntil_local {stops : List Char → Bool}
    (hstops : ∀ {tail left : List Char}, Cut tail left → stops tail = true ∧
      ∀ text, stops (text ++ left) = stops (text ++ tail)) : Local (textUntil stops) := by
  refine local_modifyGet (textUntil_advances stops) ?_
  intro tail left cursor twin hcut hmatches _
  obtain ⟨htail, hsame⟩ := hstops hcut
  obtain ⟨kept, hrest, htwin, hoffset⟩ := hmatches
  obtain ⟨htext, hlength⟩ := takeUntil_append_cut hsame htail kept
  dsimp only
  rw [hrest, htwin, htext]
  exact ⟨rfl, Cursor.Matches.skip hrest htwin hoffset hlength⟩

theorem textToEnd_local : Local textToEnd :=
  textUntil_local fun hcut => ⟨hcut.ends, hcut.endsStatement_append⟩

theorem attempt_local {step? : Cursor → Option Cursor} (hadvances : Advances (attempt step?))
    (hstep : ∀ {tail left : List Char} {cursor twin : Cursor}, Cut tail left →
      cursor.Matches tail left twin → Cursor.Alike tail left (step? cursor) (step? twin)) :
    Local (attempt step?) := by
  refine local_modifyGet hadvances ?_
  intro tail left cursor twin hcut hmatches _
  rcases hstep hcut hmatches with ⟨hfound, htwin⟩ | ⟨later, laterTwin, hfound, htwin, hlater⟩
  · rw [hfound, htwin]
    exact ⟨rfl, hmatches⟩
  · rw [hfound, htwin]
    exact ⟨rfl, hlater⟩

theorem eatWord_local {word : String} (hlettered : Lettered word) : Local (eatWord word) :=
  attempt_local (eatWord_advances word) fun hcut hmatches =>
    Cursor.alike_skipWord? hcut hlettered followsWord_congr hmatches

theorem eatSide_local {side : String} (hlettered : Lettered side) : Local (eatSide side) := by
  refine attempt_local (eatSide_advances side) fun hcut hmatches => ?_
  rcases Cursor.alike_skipWord? hcut hlettered followsWord_congr hmatches with
    ⟨hfound, htwin⟩ | ⟨later, laterTwin, hfound, htwin, hlater⟩
  · rw [hfound, htwin]
    exact .inl ⟨rfl, rfl⟩
  · rw [hfound, htwin]
    exact Cursor.alike_skipWord? hcut (by decide) followsWord_congr (hlater.skipIndent hcut)

/-- A character is not taken from the text behind the cut. -/
theorem eat_local (char : Char) : Local (eat char) := by
  refine local_modifyGet (eat_advances char) ?_
  intro tail left cursor twin hcut hmatches hkept
  have hsame : twin.rest.head? = cursor.rest.head? := by
    obtain ⟨kept, hrest, htwin, -⟩ := hmatches
    rw [hrest, htwin, hcut.head?_append]
  dsimp only at hkept ⊢
  by_cases hhead : cursor.rest.head? = some char
  · have htwinHead : twin.rest.head? = some char := hsame.trans hhead
    rw [if_pos hhead] at hkept
    rw [if_pos hhead, if_pos htwinHead]
    refine ⟨rfl, ?_⟩
    obtain ⟨kept, hrest, htwin, hoffset⟩ := hmatches
    refine Cursor.Matches.skip hrest htwin hoffset ?_
    have hlength := hkept.length_le
    have hne : cursor.rest ≠ [] := by
      intro hnil
      rw [hnil] at hhead
      simp at hhead
    have hpositive := List.length_pos_iff.mpr hne
    simp only [Cursor.skip, List.length_drop] at hlength
    rw [hrest, List.length_append] at hlength hpositive
    omega
  · have htwinHead : twin.rest.head? ≠ some char := hsame ▸ hhead
    rw [if_neg hhead, if_neg htwinHead]
    exact ⟨rfl, hmatches⟩

theorem findSome?_alike {tail left : List Char} {first second : Keyword → Option Cursor}
    (halike : ∀ keyword, Cursor.Alike tail left (first keyword) (second keyword))
    (keywords : List Keyword) :
    (keywords.findSome? (fun keyword => (first keyword).map fun later => (keyword, later)) = none ∧
      keywords.findSome? (fun keyword => (second keyword).map fun later => (keyword, later)) =
        none) ∨
      ∃ keyword later laterTwin,
        keywords.findSome? (fun keyword => (first keyword).map fun later => (keyword, later)) =
          some (keyword, later) ∧
        keywords.findSome? (fun keyword => (second keyword).map fun later => (keyword, later)) =
          some (keyword, laterTwin) ∧
        later.Matches tail left laterTwin := by
  induction keywords with
  | nil => exact .inl ⟨rfl, rfl⟩
  | cons keyword keywords ih =>
      rw [List.findSome?_cons, List.findSome?_cons]
      rcases halike keyword with ⟨hfirst, hsecond⟩ | ⟨later, laterTwin, hfirst, hsecond, hlater⟩
      · rw [hfirst, hsecond]
        exact ih
      · rw [hfirst, hsecond]
        exact .inr ⟨keyword, later, laterTwin, rfl, rfl, hlater⟩

theorem keyword?_local : Local keyword? := by
  refine local_modifyGet keyword?_advances ?_
  intro tail left cursor twin hcut hmatches _
  have halike : ∀ keyword : Keyword, Cursor.Alike tail left
      (cursor.skipWord? followsKeyword keyword.word) (twin.skipWord? followsKeyword keyword.word) :=
    fun keyword => Cursor.alike_skipWord? hcut keyword.lettered followsKeyword_congr hmatches
  rcases findSome?_alike halike Keyword.all with
    ⟨hfound, htwin⟩ | ⟨keyword, later, laterTwin, hfound, htwin, hlater⟩
  · rw [hfound, htwin]
    exact ⟨rfl, hmatches⟩
  · rw [hfound, htwin]
    exact ⟨rfl, hlater⟩

theorem isPrefixOf_append_cut {word tail : List Char} (hends : endsStatement tail = true)
    (hword : ∀ char ∈ word, char ∉ ['\n', ';', '#', '%']) (text : List Char) :
    word.isPrefixOf (text ++ tail) = word.isPrefixOf text := by
  induction word generalizing text with
  | nil => rfl
  | cons letter word ih =>
      cases text with
      | nil =>
          cases htail : tail with
          | nil => rfl
          | cons char rest =>
              have hmem := head?_mem_of_ends hends (by rw [htail]; rfl)
              have hne : (letter == char) = false := by
                refine beq_eq_false_iff_ne.mpr ?_
                rintro rfl
                exact hword letter (List.mem_cons_self ..) hmem
              simp [List.isPrefixOf, hne]
      | cons char text =>
          rw [List.cons_append, List.isPrefixOf, List.isPrefixOf,
            ih (fun other hother => hword other (List.mem_cons_of_mem _ hother))]

theorem arrow_not_mem (kind : MessageKind) :
    ∀ char ∈ kind.arrow.toList, char ∉ ['\n', ';', '#', '%'] := by
  cases kind <;> simp [MessageKind.arrow]

theorem arrow?_local : Local arrow? := by
  refine local_modifyGet arrow?_advances ?_
  intro tail left cursor twin hcut hmatches _
  obtain ⟨kept, hrest, htwin, hoffset⟩ := hmatches
  simp only [hrest, htwin, isPrefixOf_append_cut hcut.ends (arrow_not_mem _),
    isPrefixOf_append_cut hcut.ends_left (arrow_not_mem _)]
  cases hfind : MessageKind.all.find? fun kind => kind.arrow.toList.isPrefixOf kept with
  | none => exact ⟨rfl, kept, hrest, htwin, hoffset⟩
  | some kind =>
      have harrow := List.find?_some hfind
      have hlength := (List.isPrefixOf_iff_prefix.mp harrow).length_le
      rw [String.length_toList] at hlength
      exact ⟨rfl, Cursor.Matches.skip hrest htwin hoffset hlength⟩

theorem bracedText?_local : Local bracedText? := by
  refine local_modifyGet bracedText?_advances ?_
  intro tail left cursor twin hcut hmatches hkept
  obtain ⟨kept, hrest, htwin, hoffset⟩ := hmatches
  rw [hrest] at hkept
  rw [hrest, htwin]
  cases hfound : cutAt? ['\x7d'] (kept ++ tail) with
  | none =>
      have hmem := cutAt?_eq_none_iff.mp hfound
      have hnone : cutAt? ['\x7d'] (kept ++ left) = none := by
        refine cutAt?_eq_none_iff.mpr fun hleft => hmem ?_
        exact (List.prefix_append_right_inj kept).mpr hcut.part |>.mem hleft
      rw [hnone]
      exact ⟨rfl, kept, hrest, htwin, hoffset⟩
  | some found =>
      obtain ⟨text, after⟩ := found
      have htext := eq_of_cutAt?_eq_some hfound
      rw [hfound] at hkept
      have hafter : tail <:+ after := by
        have hdrop : (kept ++ tail).drop (text.length + 1) = after := by
          rw [htext, List.drop_append_of_le_length (by simp)]
          simp
        change tail <:+ cursor.rest.drop (text.length + 1) at hkept
        rwa [hrest, hdrop] at hkept
      obtain ⟨more, rfl⟩ := hafter
      obtain rfl : kept = text ++ '\x7d' :: more :=
        List.append_cancel_right (htext.trans (by simp))
      have hsame : cutAt? ['\x7d'] (text ++ '\x7d' :: more ++ left) =
          some (text, more ++ left) := by
        rw [List.append_assoc, List.cons_append]
        exact cutAt?_append (not_mem_of_cutAt? hfound) _
      rw [hsame]
      exact ⟨rfl, Cursor.Matches.skip hrest htwin hoffset (by simp)⟩

theorem actor_local (missing : Complaint) : Local (actor missing) := by
  have htext : Local (textUntil endsActor) :=
    textUntil_local fun hcut => ⟨endsActor_of_endsStatement hcut.ends, hcut.endsActor_append⟩
  refine local_bind htext fun name => ?_
  exact local_ite _ (local_throw _) (local_pure _)

theorem placement_local : Local placement := by
  unfold placement
  refine local_bind (eatSide_local (by decide)) fun left => ?_
  refine local_ite _ (local_pure _) ?_
  refine local_bind (eatSide_local (by decide)) fun right => ?_
  refine local_ite _ (local_pure _) ?_
  refine local_bind (eatWord_local (by decide)) fun across => ?_
  exact local_ite _ (local_pure _) (local_throw _)

theorem declaration_local (role : ActorRole) : Local (declaration role) := by
  refine local_bind skipIndent_local fun _ => ?_
  refine local_bind textToEnd_local fun text => ?_
  exact local_ite _ (local_throw _) (local_pure _)

theorem title_local : Local title := by
  refine local_bind skipIndent_local fun _ => ?_
  refine local_bind (eat_local _) fun _ => ?_
  exact local_bind textToEnd_local fun text => local_pure _

theorem accTitle_local : Local accTitle := by
  refine local_bind skipIndent_local fun _ => ?_
  refine local_bind (eat_local _) fun colon => ?_
  refine local_ite _ ?_ (local_throw _)
  exact local_bind textToEnd_local fun text => local_pure _

theorem accDescription_local : Local accDescription := by
  refine local_bind skipIndent_local fun _ => ?_
  refine local_bind (eat_local _) fun colon => ?_
  refine local_ite _ (local_bind textToEnd_local fun text => local_pure _) ?_
  refine local_bind (eat_local _) fun brace => ?_
  refine local_ite _ ?_ (local_throw _)
  refine local_bind bracedText?_local fun text => ?_
  cases text with
  | none => exact local_throw _
  | some text => exact local_pure _

theorem actorToEnd_local : Local actorToEnd := by
  refine local_bind skipIndent_local fun _ => ?_
  refine local_bind textToEnd_local fun name => ?_
  exact local_ite _ (local_throw _) (local_pure _)

theorem label_local : Local label :=
  local_bind textToEnd_local fun _ => local_pure _

theorem noteText_local (placement : NotePlacement) (first : String) (second : Option String) :
    Local (noteText placement first second) := by
  refine local_bind (eat_local _) fun colon => ?_
  refine local_ite _ ?_ (local_throw _)
  exact local_bind label_local fun text => local_pure _

theorem note_local : Local note := by
  refine local_bind skipIndent_local fun _ => ?_
  refine local_bind placement_local fun placement => ?_
  refine local_bind skipIndent_local fun _ => ?_
  refine local_bind (actor_local _) fun first => ?_
  refine local_bind skipIndent_local fun _ => ?_
  refine local_bind (eat_local _) fun comma => ?_
  refine local_ite _ ?_ (noteText_local _ _ _)
  refine local_bind skipIndent_local fun _ => ?_
  refine local_bind (actor_local _) fun second => ?_
  exact local_bind skipIndent_local fun _ => noteText_local _ _ _

theorem operands_local (keyword : Keyword) : Local (operands keyword) := by
  cases keyword with
  | declare role => exact declaration_local role
  | autonumber => exact local_pure _
  | title => exact title_local
  | accTitle => exact accTitle_local
  | accDescription => exact accDescription_local
  | activate => exact local_bind actorToEnd_local fun _ => local_pure _
  | deactivate => exact local_bind actorToEnd_local fun _ => local_pure _
  | note => exact note_local
  | opening kind => exact local_bind label_local fun _ => local_pure _
  | divider kind => exact local_bind label_local fun _ => local_pure _
  | closing => exact local_pure _

theorem edge?_local : Local edge? := by
  refine local_bind (eat_local _) fun plus => ?_
  refine local_ite _ (local_pure _) ?_
  refine local_bind (eat_local _) fun minus => ?_
  exact local_ite _ (local_pure _) (local_pure _)

theorem messageText_local : Local messageText := by
  refine local_bind (eat_local _) fun colon => ?_
  exact local_ite _ label_local (local_pure _)

theorem messageFrom_local (source : String) (unrecognized : Complaint) :
    Local (messageFrom source unrecognized) := by
  refine local_bind skipIndent_local fun _ => ?_
  refine local_bind arrow?_local fun arrow => ?_
  cases arrow with
  | none => exact local_throw _
  | some kind =>
      refine local_bind skipIndent_local fun _ => ?_
      refine local_bind edge?_local fun edge => ?_
      refine local_bind skipIndent_local fun _ => ?_
      refine local_bind (actor_local _) fun target => ?_
      refine local_bind skipIndent_local fun _ => ?_
      exact local_bind messageText_local fun text => local_pure _

/-- A reading that succeeds does so whatever it would have complained about. -/
theorem actor_complaint {missing other : Complaint} {cursor : Cursor} {found : String × Cursor}
    (hactor : actor missing cursor = .ok found) : actor other cursor = .ok found := by
  obtain ⟨text, later, htext, hname⟩ := bind_eq_ok.mp hactor
  refine bind_eq_ok.mpr ⟨text, later, htext, ?_⟩
  by_cases hempty : (trim text).isEmpty = true
  · rw [if_pos hempty] at hname
    exact absurd hname (throw_ne_ok _ _ _)
  · rw [if_neg hempty] at hname ⊢
    exact hname

theorem messageFrom_complaint {source : String} {unrecognized other : Complaint} {cursor : Cursor}
    {found : Statement × Cursor} (hread : messageFrom source unrecognized cursor = .ok found) :
    messageFrom source other cursor = .ok found := by
  obtain ⟨_, between, hindent, hrest⟩ := bind_eq_ok.mp hread
  obtain ⟨arrow, later, harrow, hlast⟩ := bind_eq_ok.mp hrest
  refine bind_eq_ok.mpr ⟨_, between, hindent, bind_eq_ok.mpr ⟨arrow, later, harrow, ?_⟩⟩
  cases arrow with
  | none => exact absurd hlast (throw_ne_ok _ _ _)
  | some kind => exact hlast

theorem message_local : Local message where
  advances := by
    refine advances_bind advances_get fun start => ?_
    refine advances_bind (actor_advances _) fun source => ?_
    exact messageFrom_advances _ _
  cut := by
    intro tail left cursor twin later found hcut hmatches hread hkept
    have hreading : Local (do
        let source ← actor (.unrecognized cursor.excerpt)
        messageFrom source (.unrecognized cursor.excerpt)) :=
      local_bind (actor_local _) fun source => messageFrom_local source _
    obtain ⟨laterTwin, htwin, hlater⟩ := hreading.cut hcut hmatches hread hkept
    refine ⟨laterTwin, ?_, hlater⟩
    obtain ⟨source, between, hactor, hfrom⟩ := bind_eq_ok.mp htwin
    have hother : (do
        let source ← actor (.unrecognized twin.excerpt)
        messageFrom source (.unrecognized twin.excerpt)) twin = .ok (found, laterTwin) :=
      bind_eq_ok.mpr ⟨source, between, actor_complaint hactor, messageFrom_complaint hfrom⟩
    exact hother

theorem statement_local : Local statement := by
  refine local_bind keyword?_local fun keyword => ?_
  cases keyword with
  | some keyword => exact operands_local keyword
  | none => exact message_local

end Reading

end SequenceChart
