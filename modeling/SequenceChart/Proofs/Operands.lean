import SequenceChart.Proofs.Yields

/-!
# Operands

The operands of each kind of statement are found again where they were printed.
-/

namespace SequenceChart

namespace Reading

variable {α : Type} {rest : List Char}

section Operands

variable {printed pad : List Char}

theorem actorToEnd_yields {name : String} (hprinted : PrintedName name printed)
    (hpad : Spacing pad) (hapart : Apart printed pad rest) :
    Yields actorToEnd (printed ++ pad) rest name := by
  obtain ⟨hbefore, -, hname⟩ := hprinted
  rw [List.append_assoc]
  have hspaces : Yields skipIndent _ (name.toList ++ pad ++ rest) () :=
    skipIndent_yields hbefore (by rw [List.append_assoc]; exact hname.unindented _)
  refine hspaces.bind ?_
  have htext : Yields textToEnd (name.toList ++ pad) rest (name.toList ++ pad) :=
    textToEnd_yields hname.plainText Spacing.nil hpad hapart.suffix
  refine htext.bind_end ?_
  have htrim : trim (name.toList ++ pad) = name.toList := by
    rw [trim_append_blanks hpad.isBlank, hname.trim_eq]
  rw [htrim, if_neg (by simpa using hname.ne_empty), trimmed, htrim, String.ofList_toList]
  exact yields_pure name rest

/-- A reading that finds a colon goes on behind it, with the text to the end. -/
theorem colon_yields {text : String} {next : Bool → Reading α} {make : String → α}
    (hnext : next true = do return make (trimmed (← textToEnd)))
    (hprinted : PrintedText text printed) (hpad : Spacing pad) (hapart : Apart printed pad rest) :
    Yields (do skipIndent; next (← eat ':')) (printed ++ pad) rest (make text) := by
  obtain ⟨hbefore, hafter, htext⟩ := hprinted
  rename_i before after
  refine yields_of_eq (before ++ ([':'] ++ (after ++ text.toList ++ pad))) ?_ (by simp)
  refine (skipIndent_yields hbefore (unindented_cons rfl _)).bind ((eat_yields ':' _).bind ?_)
  rw [hnext]
  refine (textToEnd_yields htext hafter hpad hapart.suffix).bind_end ?_
  rw [trim_spaced htext.trim_eq hafter hpad]
  exact yields_pure _ rest

theorem title_yields {text : String} (hprinted : PrintedText text printed) (hpad : Spacing pad)
    (hapart : Apart printed pad rest) : Yields title (printed ++ pad) rest (.title text) :=
  colon_yields rfl hprinted hpad hapart

theorem accTitle_yields {text : String} (hprinted : PrintedText text printed) (hpad : Spacing pad)
    (hapart : Apart printed pad rest) : Yields accTitle (printed ++ pad) rest (.accTitle text) :=
  colon_yields rfl hprinted hpad hapart

theorem accDescription_yields {text : String} (hprinted : PrintedText text printed)
    (hpad : Spacing pad) (hapart : Apart printed pad rest) :
    Yields accDescription (printed ++ pad) rest (.accDescription text) :=
  colon_yields rfl hprinted hpad hapart

theorem label_yields {label : String} (hprinted : PrintedLabel label printed) (hpad : Spacing pad)
    (hapart : Apart printed pad rest) :
    ∃ raw, Yields Reading.label (printed ++ pad) rest raw ∧ trimmed raw.toList = label := by
  cases hprinted with
  | empty =>
      have hempty : PlainText "" := ⟨rfl, nofun, by decide⟩
      refine ⟨String.ofList pad, ?_, ?_⟩
      · exact (textToEnd_yields hempty Spacing.nil hpad hapart).bind_end
          (yields_pure _ rest)
      · rw [String.toList_ofList]
        exact trim_spaced hempty.trim_eq Spacing.nil hpad
  | spaced hbefore hne hlabel =>
      rename_i before
      refine ⟨String.ofList (before ++ label.toList ++ pad), ?_, ?_⟩
      · exact (textToEnd_yields hlabel hbefore hpad hapart.suffix).bind_end (yields_pure _ rest)
      · rw [String.toList_ofList, trim_spaced hlabel.trim_eq hbefore hpad]

theorem splitAlias_of_not_blank {id : List Char} (hid : ∀ char ∈ id, isBlank char = false) :
    splitAlias id = (id, none) := by
  induction id with
  | nil => rfl
  | cons char id ih =>
      have hafter : aliasAfter? id = none := by
        unfold aliasAfter?
        cases id with
        | nil => rfl
        | cons second id => simp [hid second (by simp)]
      rw [splitAlias, hafter]
      dsimp only
      rw [ih fun other hother => hid other (by simp [hother])]

theorem splitAlias_append {id tail label : List Char} (hid : ∀ char ∈ id, isBlank char = false)
    (hne : id ≠ []) (htail : aliasAfter? tail = some label) :
    splitAlias (id ++ tail) = (id, some label) := by
  induction id with
  | nil => exact absurd rfl hne
  | cons char id ih =>
      rw [List.cons_append, splitAlias]
      cases id with
      | nil =>
          rw [List.nil_append, htail]
      | cons second id =>
          have hafter : aliasAfter? (second :: id ++ tail) = none := by
            unfold aliasAfter?
            simp [hid second (by simp)]
          rw [hafter]
          dsimp only
          rw [ih (fun other hother => hid other (by simp [hother])) (by simp)]

theorem aliasAfter?_append {before word after label : List Char} (hbefore : Spacing before)
    (hbefore_ne : before ≠ []) (hword : Spells "as" word) (hafter : Spacing after)
    (hafter_ne : after ≠ []) (hlabel : trim label = label) :
    aliasAfter? (before ++ word ++ after ++ label) = some label := by
  obtain ⟨blank, before, rfl⟩ := List.exists_cons_of_ne_nil hbefore_ne
  obtain ⟨third, after, rfl⟩ := List.exists_cons_of_ne_nil hafter_ne
  have hletters : word.map Char.toLower = ['a', 's'] := hword
  obtain ⟨first, more, rfl, hfirst, hmore⟩ := List.map_eq_cons_iff.mp hletters
  obtain ⟨second, none, rfl, hsecond, hnone⟩ := List.map_eq_cons_iff.mp hmore
  obtain rfl := List.map_eq_nil_iff.mp hnone
  have hfirst_blank : isBlank first = false := by
    cases hblank : isBlank first with
    | false => rfl
    | true =>
        rw [toLower_of_isBlank hblank] at hfirst
        rw [hfirst] at hblank
        exact nomatch hblank
  have hstart : isBlank blank = true := hbefore.isBlank blank (by simp)
  have hthird : isBlank third = true := hafter.isBlank third (by simp)
  have hdrop : dropBlanks (blank :: before ++ [first, second] ++ third :: after ++ label) =
      first :: second :: third :: (after ++ label) := by
    rw [List.append_assoc, List.append_assoc, dropBlanks,
      List.dropWhile_append_of_pos hbefore.isBlank]
    simp [hfirst_blank]
  have hlast : dropBlanks (after ++ label) = label := by
    have hblanks : ∀ char ∈ after, isBlank char = true := fun char hchar =>
      hafter.isBlank char (by simp [hchar])
    rw [dropBlanks, List.dropWhile_append_of_pos hblanks]
    exact dropBlanks_eq_self_of_trim hlabel
  unfold aliasAfter?
  rw [hdrop]
  simp [hstart, hfirst, hsecond, hthird, hlast]

section Alias

variable {id : String} {label : Option String} {tail : List Char}

/-- A declaration and its alias stand on one line. -/
theorem aliased_yields (htail : PrintedAlias label tail) (hname : PlainName id)
    (hpad : Spacing pad) (hapart : Apart (id.toList ++ tail) pad rest) :
    Yields textToEnd (id.toList ++ tail ++ pad) rest (id.toList ++ tail ++ pad) := by
  cases htail with
  | none =>
      rw [List.append_nil] at hapart ⊢
      exact textToEnd_yields hname.plainText Spacing.nil hpad hapart
  | some hbefore hbefore_ne hword hafter hafter_ne hlabel hlabel_ne =>
      rename_i label before word after
      have hid_clear : Clear endsStatement (id.toList ++ before)
          (word ++ (after ++ (label.toList ++ pad)) ++ rest) :=
        hname.plainText.clear hbefore fun hempty _ => absurd hempty hbefore_ne
      have hword_clear := hword.clear (by decide) (after ++ (label.toList ++ pad) ++ rest)
      have hafter_clear := hafter.clear (label.toList ++ pad ++ rest)
      have hlabel_clear := hlabel.clear hpad hapart.suffix.suffix.percent
      have hall := hid_clear.append (hword_clear.append (hafter_clear.append hlabel_clear))
      exact textUntil_yields (by simpa using hall) hapart.endsStatement

theorem splitAlias_of_printed (htail : PrintedAlias label tail) (hname : PlainName id)
    (hid : ∀ char ∈ id.toList, isBlank char = false) (hpad : Spacing pad) :
    splitAlias (trim (id.toList ++ tail ++ pad)) = (id.toList, label.map String.toList) := by
  have hid_ne : id.toList ≠ [] := by simpa using hname.ne_empty
  rw [trim_append_blanks hpad.isBlank]
  cases htail with
  | none => rw [List.append_nil, hname.trim_eq, splitAlias_of_not_blank hid, Option.map_none]
  | some hbefore hbefore_ne hword hafter hafter_ne hlabel hlabel_ne =>
      have halias := aliasAfter?_append hbefore hbefore_ne hword hafter hafter_ne hlabel.trim_eq
      rw [← List.append_assoc, trim_append_append hname.trim_eq hlabel.trim_eq hid_ne
        (by simpa using hlabel_ne), List.append_assoc, splitAlias_append hid hid_ne halias,
        Option.map_some]

theorem map_trimmed_of_printed (htail : PrintedAlias label tail) :
    (label.map String.toList).map trimmed = label := by
  cases htail with
  | none => rfl
  | some _ _ _ _ _ hlabel _ =>
      rw [Option.map_some, Option.map_some, trimmed, hlabel.trim_eq, String.ofList_toList]

end Alias

theorem declaration_yields {role : ActorRole} {id : String} {label : Option String}
    {name tail : List Char} (hname : PrintedName id name)
    (hid : ∀ char ∈ id.toList, isBlank char = false) (htail : PrintedAlias label tail)
    (hpad : Spacing pad) (hapart : Apart (name ++ tail) pad rest) :
    Yields (declaration role) (name ++ tail ++ pad) rest (.declare role id label) := by
  obtain ⟨hbefore, -, hname⟩ := hname
  rename_i before
  have hid_ne : id.toList ≠ [] := by simpa using hname.ne_empty
  rw [List.append_assoc] at hapart
  refine yields_of_eq (before ++ (id.toList ++ tail ++ pad)) ?_ (by simp)
  refine Yields.bind (skipIndent_yields hbefore ?_) ?_
  · rw [List.append_assoc, List.append_assoc]
    exact hname.unindented _
  · refine (aliased_yields htail hname hpad hapart.suffix).bind_end ?_
    rw [splitAlias_of_printed htail hname hid hpad]
    dsimp only
    rw [if_neg (by simpa using hid_ne), String.ofList_toList, map_trimmed_of_printed htail]
    exact yields_pure _ rest

theorem noteText_yields {placed : NotePlacement} {first text : String} {second : Option String}
    {after : List Char} (hafter : Spacing after) (htext : PlainText text) (hpad : Spacing pad)
    (hapart : Apart text.toList pad rest) :
    Yields (noteText placed first second) ([':'] ++ (after ++ text.toList ++ pad)) rest
      (.note placed first second (String.ofList (after ++ text.toList ++ pad))) := by
  refine (eat_yields ':' _).bind ?_
  have hlabel : Yields label (after ++ text.toList ++ pad) rest
      (String.ofList (after ++ text.toList ++ pad)) :=
    (textToEnd_yields htext hafter hpad hapart).bind_end (yields_pure _ rest)
  exact hlabel.bind_end (yields_pure _ rest)

theorem noteActors_yields {placed : NotePlacement} {first text : String} {second : Option String}
    {before actors tail : List Char} (hbefore : Spacing before)
    (hactors : PrintedActors first second actors) (htail : PrintedText text tail)
    (hpad : Spacing pad) (hapart : Apart tail pad rest) :
    ∃ raw, Yields (do
        skipIndent
        let first ← actor .missingNoteActor
        skipIndent
        if ← eat ',' then
          skipIndent
          let second ← actor .missingSecondNoteActor
          skipIndent
          noteText placed first (some second)
        else
          noteText placed first none) (before ++ (actors ++ (tail ++ pad))) rest
      (.note placed first second raw) ∧ trimmed raw.toList = text := by
  obtain ⟨hbeforeColon, hafterColon, htext⟩ := htail
  rename_i beforeColon afterColon
  have htrim : trimmed (String.ofList (afterColon ++ text.toList ++ pad)).toList = text := by
    rw [String.toList_ofList, trim_spaced htext.trim_eq hafterColon hpad]
  refine ⟨String.ofList (afterColon ++ text.toList ++ pad), ?_, htrim⟩
  cases hactors with
  | one hname =>
      refine yields_of_eq (before ++ (first.toList ++ beforeColon ++
        ([':'] ++ (afterColon ++ text.toList ++ pad)))) ?_ (by simp)
      refine Yields.bind (skipIndent_yields hbefore ?_) ?_
      · simp only [List.append_assoc]
        exact hname.unindented _
      refine (actor_yields hname hbeforeColon (by simp) rfl _).bind ?_
      refine (skipIndent_yields Spacing.nil (unindented_cons rfl _)).bind_nil ?_
      refine (eat_yields_false (by simp)).bind_nil ?_
      exact noteText_yields hafterColon htext hpad hapart.suffix
  | two hfirst hbeforeComma hafterComma hsecond =>
      rename_i second beforeComma afterComma
      refine yields_of_eq (before ++ (first.toList ++ beforeComma ++ ([','] ++ (afterComma ++
        (second.toList ++ beforeColon ++
          ([':'] ++ (afterColon ++ text.toList ++ pad))))))) ?_ (by simp)
      refine Yields.bind (skipIndent_yields hbefore ?_) ?_
      · simp only [List.append_assoc]
        exact hfirst.unindented _
      refine (actor_yields hfirst hbeforeComma (by simp) rfl _).bind ?_
      refine (skipIndent_yields Spacing.nil (unindented_cons rfl _)).bind_nil ?_
      refine (eat_yields ',' _).bind ?_
      refine Yields.bind (skipIndent_yields hafterComma ?_) ?_
      · simp only [List.append_assoc]
        exact hsecond.unindented _
      refine (actor_yields hsecond hbeforeColon (by simp) rfl _).bind ?_
      refine (skipIndent_yields Spacing.nil (unindented_cons rfl _)).bind_nil ?_
      exact noteText_yields hafterColon htext hpad hapart.suffix

theorem note_yields {placed : NotePlacement} {first text : String} {second : Option String}
    {before place after actors tail : List Char} (hbefore : Spacing before)
    (hplace : PrintedPlacement placed place) (hafter : Spacing after) (hafter_ne : after ≠ [])
    (hactors : PrintedActors first second actors) (htail : PrintedText text tail)
    (hpad : Spacing pad) (hapart : Apart tail pad rest) :
    ∃ raw, Yields note (before ++ place ++ after ++ actors ++ tail ++ pad) rest
      (.note placed first second raw) ∧ trimmed raw.toList = text := by
  obtain ⟨raw, hraw, htrim⟩ := noteActors_yields hafter hactors htail hpad hapart
  refine ⟨raw, ?_, htrim⟩
  refine yields_of_eq (before ++ (place ++ (after ++ (actors ++ (tail ++ pad))))) ?_ (by simp)
  refine Yields.bind (skipIndent_yields hbefore ?_) ?_
  · simp only [List.append_assoc]
    exact hplace.unindented _
  · exact (placement_yields hplace (by simpa using followsWord_append hafter hafter_ne)).bind hraw

/-- With no sign the blanks on both sides of its place run together. -/
theorem sign_yields {β : Type} {next : Option ActivationEdge → Reading β} {result : β}
    {edge : Option ActivationEdge} {before after right : List Char} (hbefore : Spacing before)
    (hafter : Spacing after) (hindent : Unindented (right ++ rest))
    (hplus : (right ++ rest).head? ≠ some '+')
    (hminus : (right ++ rest).head? ≠ some '-') (hnext : Yields (next edge) right rest result) :
    Yields (do skipIndent; let edge ← edge?; skipIndent; next edge)
      (before ++ signOf edge ++ after ++ right) rest result := by
  cases edge with
  | none =>
      refine yields_of_eq ((before ++ after) ++ right) ?_ (by simp [signOf])
      refine (skipIndent_yields (Spacing.append hbefore hafter) hindent).bind ?_
      refine (edge?_yields none hplus hminus).bind_nil ?_
      exact (skipIndent_yields Spacing.nil hindent).bind_nil hnext
  | some edge =>
      refine yields_of_eq (before ++ (signOf (some edge) ++ (after ++ right))) ?_ (by simp)
      refine (skipIndent_yields hbefore ?_).bind ?_
      · cases edge <;> rintro char ⟨⟩ <;> rfl
      refine Yields.bind (edge?_yields (some edge) ?_ ?_) ?_
      · rw [List.append_assoc]
        exact hafter.head?_append_ne rfl hplus
      · rw [List.append_assoc]
        exact hafter.head?_append_ne rfl hminus
      exact (skipIndent_yields hafter hindent).bind hnext

theorem target_yields {source target text : String} {kind : MessageKind}
    {edge : Option ActivationEdge} {tail : List Char} (htarget : PlainName target)
    (htail : tail = [] ∧ text = "" ∨ PrintedText text tail) (hpad : Spacing pad)
    (hapart : Apart (target.toList ++ tail) pad rest) :
    ∃ raw, Yields (do
        let target ← actor .missingTarget
        skipIndent
        return Statement.message source target kind edge (← messageText))
      (target.toList ++ tail ++ pad) rest (.message source target kind edge raw) ∧
        trimmed raw.toList = text := by
  rcases htail with ⟨rfl, rfl⟩ | htail
  · refine ⟨"", ?_, rfl⟩
    rw [List.append_nil] at hapart ⊢
    have hactor : Yields (actor .missingTarget) (target.toList ++ pad) rest target :=
      actor_yields htarget hpad hapart.percent (endsActor_of_endsStatement hapart.endsStatement) _
    refine hactor.bind_end ((skipIndent_yields Spacing.nil hapart.unindented).bind_nil ?_)
    have htext : Yields messageText [] rest "" :=
      (eat_yields_false hapart.head?_ne_colon).bind_nil (yields_pure _ rest)
    exact htext.bind_nil (yields_pure _ rest)
  · obtain ⟨hbeforeColon, hafterColon, htext⟩ := htail
    rename_i beforeColon afterColon
    have htrim : trimmed (String.ofList (afterColon ++ text.toList ++ pad)).toList = text := by
      rw [String.toList_ofList, trim_spaced htext.trim_eq hafterColon hpad]
    refine ⟨String.ofList (afterColon ++ text.toList ++ pad), ?_, htrim⟩
    refine yields_of_eq (target.toList ++ beforeColon ++
      ([':'] ++ (afterColon ++ text.toList ++ pad))) ?_ (by simp)
    refine (actor_yields htarget hbeforeColon (by simp) rfl _).bind ?_
    refine (skipIndent_yields Spacing.nil (unindented_cons rfl _)).bind_nil ?_
    have hmessageText : Yields messageText ([':'] ++ (afterColon ++ text.toList ++ pad)) rest
        (String.ofList (afterColon ++ text.toList ++ pad)) := by
      refine (eat_yields ':' _).bind ?_
      exact (textToEnd_yields htext hafterColon hpad hapart.suffix.suffix).bind_end
        (yields_pure _ rest)
    exact hmessageText.bind_end (yields_pure _ rest)

/-- The complaints of a message tell its line, and do not matter where it is found. -/
theorem message_yields_of {text : List Char} {found : Statement}
    (hmessage : ∀ complaint, Yields
      (do messageFrom (← actor complaint) complaint) text rest found) :
    Yields message text rest found :=
  fun offset => hmessage (.unrecognized (Cursor.mk (text ++ rest) offset).excerpt) offset

theorem endsActor_of_startsArrow {second : Char} (hsecond : second ∈ ['-', '>', 'x'])
    (more : List Char) : endsActor ('-' :: second :: more) = true := by
  simp only [List.mem_cons, List.not_mem_nil, or_false] at hsecond
  rcases hsecond with rfl | rfl | rfl <;> rfl

theorem signedTarget_yields (source : String) (kind : MessageKind) (edge : Option ActivationEdge)
    {target text : String} {afterArrow afterSign tail : List Char}
    (hafterArrow : Spacing afterArrow) (hafterSign : Spacing afterSign)
    (htarget : PlainName target) (htail : tail = [] ∧ text = "" ∨ PrintedText text tail)
    (hpad : Spacing pad) (hapart : Apart (target.toList ++ tail) pad rest) :
    ∃ raw, Yields (do
        skipIndent
        let edge ← edge?
        skipIndent
        let target ← actor .missingTarget
        skipIndent
        return Statement.message source target kind edge (← messageText))
      (afterArrow ++ signOf edge ++ afterSign ++ (target.toList ++ tail ++ pad)) rest
        (.message source target kind edge raw) ∧ trimmed raw.toList = text := by
  obtain ⟨raw, hraw, htrim⟩ := target_yields htarget htail hpad hapart
  refine ⟨raw, sign_yields hafterArrow hafterSign ?_ ?_ ?_ hraw, htrim⟩ <;>
    simp only [List.append_assoc]
  · exact htarget.unindented _
  · exact htarget.head?_append_ne (by simp) _
  · exact htarget.head?_append_ne (by simp) _

theorem head?_after_arrow_ne {target : String} (edge : Option ActivationEdge)
    {afterArrow afterSign : List Char} (hafterArrow : Spacing afterArrow)
    (hafterSign : Spacing afterSign) (htarget : PlainName target) (rest : List Char) :
    (afterArrow ++ (signOf edge ++ (afterSign ++ (target.toList ++ rest)))).head? ≠ some '>' := by
  refine hafterArrow.head?_append_ne rfl (head?_signOf_append_ne ?_ ?_ edge)
  · decide
  · exact hafterSign.head?_append_ne rfl (htarget.head?_append_ne (by simp) _)

theorem message_yields {source target text : String} (kind : MessageKind)
    (edge : Option ActivationEdge) {beforeArrow afterArrow afterSign tail : List Char}
    (hsource : PlainName source) (hbeforeArrow : Spacing beforeArrow)
    (hafterArrow : Spacing afterArrow) (hafterSign : Spacing afterSign)
    (htarget : PlainName target) (htail : tail = [] ∧ text = "" ∨ PrintedText text tail)
    (hpad : Spacing pad) (hapart : Apart (target.toList ++ tail) pad rest) :
    ∃ raw, Yields message (source.toList ++ beforeArrow ++ kind.arrow.toList ++ afterArrow ++
        signOf edge ++ afterSign ++ target.toList ++ tail ++ pad) rest
      (.message source target kind edge raw) ∧ trimmed raw.toList = text := by
  obtain ⟨raw, hraw, htrim⟩ :=
    signedTarget_yields source kind edge hafterArrow hafterSign htarget htail hpad hapart
  refine ⟨raw, ?_, htrim⟩
  have hgreater : (afterArrow ++ signOf edge ++ afterSign ++ (target.toList ++ tail ++ pad) ++
      rest).head? ≠ some '>' := by
    simp only [List.append_assoc]
    exact head?_after_arrow_ne edge hafterArrow hafterSign htarget _
  obtain ⟨second, more, harrow, hsecond⟩ := kind.arrow_toList
  have hfrom : ∀ complaint, Yields (messageFrom source complaint)
      (kind.arrow.toList ++
        (afterArrow ++ signOf edge ++ afterSign ++ (target.toList ++ tail ++ pad))) rest
      (.message source target kind edge raw) := by
    intro complaint
    refine (skipIndent_yields Spacing.nil ?_).bind_nil ((arrow?_yields kind hgreater).bind hraw)
    rw [harrow]
    rintro char ⟨⟩
    rfl
  refine yields_of_eq (source.toList ++ beforeArrow ++ (kind.arrow.toList ++
    (afterArrow ++ signOf edge ++ afterSign ++ (target.toList ++ tail ++ pad)))) ?_ (by simp)
  apply message_yields_of
  intro complaint
  refine Yields.bind (actor_yields hsource hbeforeArrow (fun _ => ?_) ?_ complaint) (hfrom _)
  · rw [harrow]
    simp
  · rw [harrow]
    exact endsActor_of_startsArrow hsecond _

end Operands

end Reading

end SequenceChart
