import SequenceChart.Grammar.Reading

/-!
# Progress

No reading moves the cursor back, and a statement takes at least one character.
-/

namespace SequenceChart

namespace Reading

variable {α β : Type}

/-- Wherever the reading succeeds, its cursor leads to the one it leaves. -/
def Advances (reading : Reading α) : Prop :=
  ∀ cursor value later, reading cursor = .ok (value, later) → cursor.Leads later

theorem bind_eq_ok {reading : Reading α} {next : α → Reading β} {cursor : Cursor}
    {result : β × Cursor} :
    (reading >>= next) cursor = .ok result ↔
      ∃ value later, reading cursor = .ok (value, later) ∧ next value later = .ok result := by
  change (StateT.bind reading next) cursor = .ok result ↔ _
  simp only [StateT.bind, bind, Except.bind]
  cases hread : reading cursor with
  | error complaint => simp
  | ok found =>
      constructor
      · intro hnext
        exact ⟨found.1, found.2, rfl, hnext⟩
      · rintro ⟨value, later, heq, hnext⟩
        rw [Except.ok.inj heq]
        exact hnext

theorem advances_pure (value : α) : Advances (pure value) := by
  intro cursor found later hpure
  have heq : (value, cursor) = (found, later) := Except.ok.inj hpure
  rw [← (Prod.mk.inj heq).2]
  exact Cursor.Leads.refl cursor

@[simp]
theorem throw_ne_ok (complaint : Complaint) (cursor : Cursor) (result : α × Cursor) :
    (throw complaint : Reading α) cursor ≠ .ok result :=
  nofun

theorem advances_throw (complaint : Complaint) : Advances (throw complaint : Reading α) :=
  fun _ _ _ hthrow => absurd hthrow (throw_ne_ok _ _ _)

theorem advances_bind {reading : Reading α} {next : α → Reading β} (hreading : Advances reading)
    (hnext : ∀ value, Advances (next value)) : Advances (reading >>= next) := by
  intro cursor value later hbind
  obtain ⟨first, between, hfirst, hlast⟩ := bind_eq_ok.mp hbind
  exact (hreading cursor first between hfirst).trans (hnext first between value later hlast)

theorem advances_ite (condition : Prop) [Decidable condition] {left right : Reading α}
    (hleft : Advances left) (hright : Advances right) :
    Advances (if condition then left else right) := by
  split
  · exact hleft
  · exact hright

theorem advances_modifyGet {step : Cursor → α × Cursor}
    (hstep : ∀ cursor : Cursor, cursor.Leads (step cursor).2) : Advances (modifyGet step) := by
  intro cursor value later hmodify
  have heq : step cursor = (value, later) := Except.ok.inj hmodify
  have := hstep cursor
  rwa [heq] at this

theorem advances_get : Advances (get : Reading Cursor) := by
  intro cursor value later hget
  have heq : (cursor, cursor) = (value, later) := Except.ok.inj hget
  rw [← (Prod.mk.inj heq).2]
  exact Cursor.Leads.refl cursor

end Reading

theorem Cursor.leads_skipWord? {cursor later : Cursor} {follows : List Char → Bool} {word : String}
    (hskip : cursor.skipWord? follows word = some later) : cursor.Leads later := by
  unfold skipWord? at hskip
  split at hskip
  · split at hskip
    · rw [← Option.some.inj hskip]
      exact cursor.leads_skip _
    · simp at hskip
  · simp at hskip

namespace Reading

theorem skipIndent_advances : Advances skipIndent :=
  advances_modifyGet fun cursor => cursor.leads_skipIndent

theorem textUntil_advances (stops : List Char → Bool) : Advances (textUntil stops) :=
  advances_modifyGet fun cursor => cursor.leads_skip _

theorem textToEnd_advances : Advances textToEnd :=
  textUntil_advances endsStatement

theorem attempt_advances {step? : Cursor → Option Cursor}
    (hstep : ∀ cursor later, step? cursor = some later → cursor.Leads later) :
    Advances (attempt step?) := by
  refine advances_modifyGet fun cursor => ?_
  split
  · rename_i later hsome
    exact hstep cursor later hsome
  · exact .refl cursor

theorem eat_advances (char : Char) : Advances (eat char) := by
  refine attempt_advances fun cursor later hstep => ?_
  split at hstep
  · rw [← Option.some.inj hstep]
    exact cursor.leads_skip 1
  · simp at hstep

theorem eatWord_advances (word : String) : Advances (eatWord word) :=
  attempt_advances fun _ _ hskip => Cursor.leads_skipWord? hskip

theorem eatSide_advances (side : String) : Advances (eatSide side) := by
  refine attempt_advances fun cursor later hstep => ?_
  obtain ⟨between, hside, hof⟩ := Option.bind_eq_some_iff.mp hstep
  exact (Cursor.leads_skipWord? hside).trans
    (between.leads_skipIndent.trans (Cursor.leads_skipWord? hof))

theorem keyword?_advances : Advances keyword? := by
  refine advances_modifyGet fun cursor => ?_
  dsimp only
  split
  · rename_i hfound
    obtain ⟨word, _, hmap⟩ := List.exists_of_findSome?_eq_some hfound
    obtain ⟨later, hskip, heq⟩ := Option.map_eq_some_iff.mp hmap
    rw [(Prod.mk.inj heq).2] at hskip
    exact Cursor.leads_skipWord? hskip
  · exact .refl cursor

theorem arrow?_advances : Advances arrow? := by
  refine advances_modifyGet fun cursor => ?_
  split
  · exact cursor.leads_skip _
  · exact .refl cursor

theorem bracedText?_advances : Advances bracedText? := by
  refine advances_modifyGet fun cursor => ?_
  split
  · exact cursor.leads_skip _
  · exact .refl cursor

theorem actor_advances (missing : Complaint) : Advances (actor missing) := by
  refine advances_bind (textUntil_advances _) fun name => ?_
  refine advances_ite _ (advances_throw _) ?_
  exact advances_pure _

theorem placement_advances : Advances placement := by
  unfold placement
  refine advances_bind (eatSide_advances _) fun left => ?_
  refine advances_ite _ (advances_pure _) ?_
  refine advances_bind (eatSide_advances _) fun right => ?_
  refine advances_ite _ (advances_pure _) ?_
  refine advances_bind (eatWord_advances _) fun across => ?_
  exact advances_ite _ (advances_pure _) (advances_throw _)

theorem declaration_advances (role : ActorRole) : Advances (declaration role) := by
  refine advances_bind skipIndent_advances fun _ => ?_
  refine advances_bind textToEnd_advances fun text => ?_
  exact advances_ite _ (advances_throw _) (advances_pure _)

theorem title_advances : Advances title := by
  refine advances_bind skipIndent_advances fun _ => ?_
  refine advances_bind (eat_advances _) fun _ => ?_
  exact advances_bind textToEnd_advances fun text => advances_pure _

theorem accTitle_advances : Advances accTitle := by
  refine advances_bind skipIndent_advances fun _ => ?_
  refine advances_bind (eat_advances _) fun colon => ?_
  refine advances_ite _ ?_ (advances_throw _)
  exact advances_bind textToEnd_advances fun text => advances_pure _

theorem accDescription_advances : Advances accDescription := by
  refine advances_bind skipIndent_advances fun _ => ?_
  refine advances_bind (eat_advances _) fun colon => ?_
  refine advances_ite _ (advances_bind textToEnd_advances fun text => advances_pure _) ?_
  refine advances_bind (eat_advances _) fun brace => ?_
  refine advances_ite _ ?_ (advances_throw _)
  refine advances_bind bracedText?_advances fun text => ?_
  cases text with
  | none => exact advances_throw _
  | some text => exact advances_pure _

theorem actorToEnd_advances : Advances actorToEnd := by
  refine advances_bind skipIndent_advances fun _ => ?_
  refine advances_bind textToEnd_advances fun name => ?_
  exact advances_ite _ (advances_throw _) (advances_pure _)

theorem label_advances : Advances label :=
  advances_bind textToEnd_advances fun _ => advances_pure _

theorem noteText_advances (placement : NotePlacement) (first : String) (second : Option String) :
    Advances (noteText placement first second) := by
  refine advances_bind (eat_advances _) fun colon => ?_
  refine advances_ite _ ?_ (advances_throw _)
  exact advances_bind label_advances fun text => advances_pure _

theorem note_advances : Advances note := by
  refine advances_bind skipIndent_advances fun _ => ?_
  refine advances_bind placement_advances fun placement => ?_
  refine advances_bind skipIndent_advances fun _ => ?_
  refine advances_bind (actor_advances _) fun first => ?_
  refine advances_bind skipIndent_advances fun _ => ?_
  refine advances_bind (eat_advances _) fun comma => ?_
  refine advances_ite _ ?_ (noteText_advances _ _ _)
  refine advances_bind skipIndent_advances fun _ => ?_
  refine advances_bind (actor_advances _) fun second => ?_
  exact advances_bind skipIndent_advances fun _ => noteText_advances _ _ _

theorem operands_advances (keyword : Keyword) : Advances (operands keyword) := by
  cases keyword with
  | declare role => exact declaration_advances role
  | autonumber => exact advances_pure _
  | title => exact title_advances
  | accTitle => exact accTitle_advances
  | accDescription => exact accDescription_advances
  | activate => exact advances_bind actorToEnd_advances fun _ => advances_pure _
  | deactivate => exact advances_bind actorToEnd_advances fun _ => advances_pure _
  | note => exact note_advances
  | opening kind => exact advances_bind label_advances fun _ => advances_pure _
  | divider kind => exact advances_bind label_advances fun _ => advances_pure _
  | closing => exact advances_pure _

theorem edge?_advances : Advances edge? := by
  refine advances_bind (eat_advances _) fun plus => ?_
  refine advances_ite _ (advances_pure _) ?_
  refine advances_bind (eat_advances _) fun minus => ?_
  exact advances_ite _ (advances_pure _) (advances_pure _)

theorem messageText_advances : Advances messageText := by
  refine advances_bind (eat_advances _) fun colon => ?_
  exact advances_ite _ label_advances (advances_pure _)

theorem messageFrom_advances (source : String) (unrecognized : Complaint) :
    Advances (messageFrom source unrecognized) := by
  refine advances_bind skipIndent_advances fun _ => ?_
  refine advances_bind arrow?_advances fun arrow => ?_
  cases arrow with
  | none => exact advances_throw _
  | some kind =>
      refine advances_bind skipIndent_advances fun _ => ?_
      refine advances_bind edge?_advances fun edge => ?_
      refine advances_bind skipIndent_advances fun _ => ?_
      refine advances_bind (actor_advances _) fun target => ?_
      refine advances_bind skipIndent_advances fun _ => ?_
      exact advances_bind messageText_advances fun text => advances_pure _

end Reading

theorem Cursor.length_lt_of_skipWord? {cursor later : Cursor} {follows : List Char → Bool}
    {word : String} (hword : word.toList ≠ [])
    (hskip : cursor.skipWord? follows word = some later) :
    later.rest.length < cursor.rest.length := by
  unfold skipWord? at hskip
  split at hskip
  · rename_i rest hdrop
    have hlength := dropWord?_length hdrop
    have hpositive := List.length_pos_iff.mpr hword
    split at hskip
    · rw [← Option.some.inj hskip]
      refine cursor.length_skip_lt ?_ ?_
      · rwa [String.length_toList] at hpositive
      · intro hempty
        rw [hempty, List.length_nil] at hlength
        omega
    · simp at hskip
  · simp at hskip

theorem Keyword.word_ne_nil (keyword : Keyword) : keyword.word.toList ≠ [] := by
  rcases keyword with role | _ | _ | _ | _ | _ | _ | _ | kind | kind | _
  case declare => cases role <;> decide
  case opening => cases kind <;> decide
  case divider => cases kind <;> decide
  all_goals decide

namespace Reading

theorem length_lt_of_keyword? {cursor later : Cursor} {keyword : Keyword}
    (hread : keyword? cursor = .ok (some keyword, later)) :
    later.rest.length < cursor.rest.length := by
  have hfound := Except.ok.inj hread
  dsimp only at hfound
  split at hfound
  · rename_i hsome
    obtain ⟨word, _, hmap⟩ := List.exists_of_findSome?_eq_some hsome
    obtain ⟨found, hskip, heq⟩ := Option.map_eq_some_iff.mp hmap
    rw [(Prod.mk.inj heq).2, (Prod.mk.inj hfound).2] at hskip
    exact Cursor.length_lt_of_skipWord? word.word_ne_nil hskip
  · simp at hfound

theorem length_lt_of_actor {cursor later : Cursor} {missing : Complaint} {name : String}
    (hread : actor missing cursor = .ok (name, later)) :
    later.rest.length < cursor.rest.length := by
  obtain ⟨text, between, htext, hname⟩ := bind_eq_ok.mp hread
  have htext := Prod.mk.inj (Except.ok.inj htext)
  split at hname
  · exact absurd hname (throw_ne_ok _ _ _)
  · rename_i hnonempty
    have hlater := (Prod.mk.inj (Except.ok.inj hname)).2
    rw [← hlater, ← htext.2]
    have htaken : takeUntil endsActor cursor.rest ≠ [] := by
      intro hempty
      rw [← htext.1, hempty] at hnonempty
      exact hnonempty rfl
    refine cursor.length_skip_lt (List.length_pos_iff.mpr htaken) ?_
    intro hrest
    rw [hrest] at htaken
    exact htaken rfl

/-- A statement takes at least one character. -/
theorem length_lt_of_statement {cursor later : Cursor} {found : Statement}
    (hread : statement cursor = .ok (found, later)) :
    later.rest.length < cursor.rest.length := by
  obtain ⟨keyword, afterKeyword, hkeyword, hrest⟩ := bind_eq_ok.mp hread
  cases keyword with
  | some keyword =>
      have hlt := length_lt_of_keyword? hkeyword
      have hle := (operands_advances keyword _ _ _ hrest).length_le
      omega
  | none =>
      have hle := (keyword?_advances _ _ _ hkeyword).length_le
      obtain ⟨start, afterGet, hget, hmessage⟩ := bind_eq_ok.mp hrest
      have hget := (advances_get _ _ _ hget).length_le
      obtain ⟨source, afterSource, hsource, hfrom⟩ := bind_eq_ok.mp hmessage
      have hlt := length_lt_of_actor hsource
      have hlast := (messageFrom_advances _ _ _ _ _ hfrom).length_le
      omega

theorem statement_advances : Advances statement := by
  refine advances_bind keyword?_advances fun keyword => ?_
  cases keyword with
  | some keyword => exact operands_advances keyword
  | none =>
      refine advances_bind advances_get fun start => ?_
      refine advances_bind (actor_advances _) fun source => ?_
      exact messageFrom_advances _ _

end Reading

end SequenceChart
