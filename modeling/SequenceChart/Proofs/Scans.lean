import SequenceChart.Proofs.Octets
import SequenceChart.Proofs.Spelling
import SequenceChart.Stepwise

/-!
# Scans

Statements read from octets. A scan has its place in the octets of the code, finds its way in them,
and takes the texts that it needs as slices. It is torn when it comes to a place inside a character,
or takes a slice that begins or ends inside one. Every scan here mirrors a reading: wherever the
reading has its cursor, the scan finds the same and ends at the same place, and is not torn.
-/

namespace SequenceChart

inductive Halt
  /-- A place or the end of a slice was inside a character, or beyond the text. -/
  | torn
  | complaint (complaint : Complaint)
  deriving DecidableEq, Repr

abbrev Scan := StateT Nat (Except Halt)

namespace Scan

variable {α β : Type}

def complain (complaint : Complaint) : Scan α :=
  throw (.complaint complaint)

def slice (text : List Char) (start stop : Nat) : Scan (List Char) :=
  match slice? text start stop with
  | some part => pure part
  | none => throw .torn

section

variable (code : List Char)

/-- The octets from a place on. -/
def left (place : Nat) : List Char :=
  (octets code).drop place

def moveTo (place : Nat) : Scan Unit :=
  if IsBoundary code place then set place else throw .torn

/-- The rest of the line, to be shown in a complaint. -/
def excerpt (place : Nat) : Scan String := do
  let rest ← slice code (min place (octets code).length) (octets code).length
  return trimmed (← slice rest 0 (byteLength (rest.takeWhile (· != '\n'))))

def skipIndent : Scan Unit := do
  let place ← get
  moveTo code (place + ((left code place).takeWhile isIndent).length)

def skipBlank : Scan Unit := do
  let place ← get
  moveTo code (place + blankLength false (left code place))

def textUntil (stops : List Char → Bool) : Scan (List Char) := do
  let start ← get
  let stop := start + (takeUntil stops (left code start)).length
  moveTo code stop
  slice code start stop

def textToEnd : Scan (List Char) :=
  textUntil code endsStatement

/-- Takes a step if it is possible, and tells whether it was. -/
def attempt (step? : Nat → Option Nat) : Scan Bool := do
  match step? (← get) with
  | some later =>
      moveTo code later
      return true
  | none => return false

def eat (char : Char) : Scan Bool :=
  attempt code fun place => if (left code place).head? = some char then some (place + 1) else none

def skipWord? (follows : List Char → Bool) (word : String) (place : Nat) : Option Nat :=
  match dropWord? word.toList (left code place) with
  | some rest => if follows rest then some (place + word.length) else none
  | none => none

def eatWord (word : String) : Scan Bool :=
  attempt code (skipWord? code Reading.followsWord word)

/-- Steps over a side and the word `of` after it, or goes back. -/
def eatSide (side : String) : Scan Bool := do
  let start ← get
  if ← eatWord code side then
    skipIndent code
    if ← eatWord code "of" then
      return true
  moveTo code start
  return false

def keyword? : Scan (Option Keyword) := do
  let place ← get
  let found := Keyword.all.findSome? fun keyword =>
    (skipWord? code Reading.followsKeyword keyword.word place).map fun later => (keyword, later)
  match found with
  | some (keyword, later) =>
      moveTo code later
      return some keyword
  | none => return none

def arrow? : Scan (Option MessageKind) := do
  let place ← get
  let rest ← slice code place (octets code).length
  match MessageKind.all.find? fun kind => kind.arrow.toList.isPrefixOf rest with
  | some kind =>
      moveTo code (place + kind.arrow.length)
      return some kind
  | none => return none

def bracedText? : Scan (Option (List Char)) := do
  let start ← get
  let rest ← slice code start (octets code).length
  match cutAt? ['\x7d'] rest with
  | some (text, _) =>
      let stop := start + byteLength text
      let text ← slice code start stop
      moveTo code (stop + 1)
      return some text
  | none => return none

def actor (missing : Complaint) : Scan String := do
  let name ← textUntil code Reading.endsActor
  if (trim name).isEmpty then complain missing else return trimmed name

def placement : Scan NotePlacement := do
  if ← eatSide code "left" then
    return .leftOf
  if ← eatSide code "right" then
    return .rightOf
  if ← eatWord code "over" then
    return .across
  complain .missingPlacement

def declaration (role : ActorRole) : Scan Statement := do
  skipIndent code
  let (id, label) := Reading.splitAlias (trim (← textToEnd code))
  if id.isEmpty then
    complain .missingParticipant
  else
    return .declare role (String.ofList id) (label.map trimmed)

def title : Scan Statement := do
  skipIndent code
  let _ ← eat code ':'
  return .title (trimmed (← textToEnd code))

def accTitle : Scan Statement := do
  skipIndent code
  if ← eat code ':' then
    return .accTitle (trimmed (← textToEnd code))
  complain .missingAccTitleColon

def accDescription : Scan Statement := do
  skipIndent code
  if ← eat code ':' then
    return .accDescription (trimmed (← textToEnd code))
  if ← eat code '\x7b' then
    match ← bracedText? code with
    | some text => return .accDescription (String.ofList (Reading.dropIndentation (trim text)))
    | none => complain .unterminatedAccDescription
  else
    complain .missingAccDescription

def actorToEnd : Scan String := do
  skipIndent code
  let name ← textToEnd code
  if (trim name).isEmpty then complain .missingActor else return trimmed name

def label : Scan String := do
  return String.ofList (← textToEnd code)

def noteText (placement : NotePlacement) (first : String) (second : Option String) :
    Scan Statement := do
  if ← eat code ':' then
    return .note placement first second (← label code)
  complain .missingNoteColon

def note : Scan Statement := do
  skipIndent code
  let placement ← placement code
  skipIndent code
  let first ← actor code .missingNoteActor
  skipIndent code
  if ← eat code ',' then
    skipIndent code
    let second ← actor code .missingSecondNoteActor
    skipIndent code
    noteText code placement first (some second)
  else
    noteText code placement first none

def operands : Keyword → Scan Statement
  | .declare role => declaration code role
  | .autonumber => return .autonumber
  | .title => title code
  | .accTitle => accTitle code
  | .accDescription => accDescription code
  | .activate => return .activate (← actorToEnd code)
  | .deactivate => return .deactivate (← actorToEnd code)
  | .note => note code
  | .opening kind => return .opening kind (← label code)
  | .divider kind => return .divider kind (← label code)
  | .closing => return .closing

def edge? : Scan (Option ActivationEdge) := do
  if ← eat code '+' then
    return some .start
  if ← eat code '-' then
    return some .stop
  return none

def messageText : Scan String := do
  if ← eat code ':' then
    label code
  else
    return ""

def messageFrom (source : String) (unrecognized : Complaint) : Scan Statement := do
  skipIndent code
  match ← arrow? code with
  | none => complain unrecognized
  | some kind =>
      skipIndent code
      let edge ← edge? code
      skipIndent code
      let target ← actor code .missingTarget
      skipIndent code
      return .message source target kind edge (← messageText code)

def message : Scan Statement := do
  let shown ← excerpt code (← get)
  let source ← actor code (.unrecognized shown)
  messageFrom code source (.unrecognized shown)

def statement : Scan Statement := do
  match ← keyword? code with
  | some keyword => operands code keyword
  | none => message code

end

/-! ### Mirrors

A scan is put together in the same way as its reading. So it is enough to mirror the parts, each at
any cursor to which the code leads: the scan goes on at the place of the cursor that the reading
leaves. -/

/-- What a reading finds, as a scan tells it. -/
def outcome : Except Complaint (α × Cursor) → Except Halt (α × Nat)
  | .ok (value, later) => .ok (value, later.offset)
  | .error complaint => .error (.complaint complaint)

/-- Wherever its cursor is in the code, the reading finds what the scan finds, and both end at the
same place. -/
structure Mirrors (code : List Char) (scan : Scan α) (reading : Reading α) : Prop where
  advances : Reading.Advances reading
  agrees : ∀ cursor, (Cursor.ofText code).Leads cursor →
    scan cursor.offset = outcome (reading cursor)

variable {code : List Char}

theorem mirrors_pure (value : α) : Mirrors code (pure value) (pure value) where
  advances := Reading.advances_pure value
  agrees _ _ := rfl

theorem mirrors_complain (complaint : Complaint) :
    Mirrors code (complain complaint : Scan α) (throw complaint) where
  advances := Reading.advances_throw complaint
  agrees _ _ := rfl

theorem mirrors_bind {scan : Scan α} {reading : Reading α} {next : α → Scan β}
    {nextReading : α → Reading β} (hscan : Mirrors code scan reading)
    (hnext : ∀ value, Mirrors code (next value) (nextReading value)) :
    Mirrors code (scan >>= next) (reading >>= nextReading) where
  advances := Reading.advances_bind hscan.advances fun value => (hnext value).advances
  agrees := by
    intro cursor hleads
    change (StateT.bind scan next) cursor.offset =
      outcome ((StateT.bind reading nextReading) cursor)
    simp only [StateT.bind, bind, Except.bind]
    rw [hscan.agrees cursor hleads]
    cases hread : reading cursor with
    | error complaint => rfl
    | ok found =>
        obtain ⟨value, later⟩ := found
        exact (hnext value).agrees later (hleads.trans (hscan.advances _ _ _ hread))

theorem mirrors_ite (condition : Prop) [Decidable condition] {first second : Scan α}
    {firstReading secondReading : Reading α} (hfirst : Mirrors code first firstReading)
    (hsecond : Mirrors code second secondReading) :
    Mirrors code (if condition then first else second)
      (if condition then firstReading else secondReading) := by
  split
  · exact hfirst
  · exact hsecond

end Scan

theorem takeUntil_isPrefix (stops : List Char → Bool) (text : List Char) :
    takeUntil stops text <+: text := by
  induction text with
  | nil => exact List.prefix_refl _
  | cons char text ih =>
      rw [takeUntil]
      split
      · exact List.nil_prefix
      · exact List.cons_prefix_cons.mpr ⟨rfl, ih⟩

theorem Cursor.offset_skip {cursor : Cursor} {text : List Char} (hpart : text <+: cursor.rest) :
    (cursor.skip text.length).offset = cursor.offset + byteLength text := by
  rw [skip, ← List.prefix_iff_eq_take.mp hpart]

theorem byteLength_ascii {text : List Char} (hascii : ∀ char ∈ text, IsAscii char) :
    byteLength text = text.length := by
  rw [← length_octets, octets_ascii hascii]

/-- A word of ASCII letters is spelled in as many octets. -/
theorem Spells.byteLength_eq {word : String} {text : List Char} (hspells : Spells word text)
    (hword : ∀ letter ∈ word.toList, IsAscii letter) : byteLength text = text.length :=
  byteLength_ascii (isAscii_of_map_toLower hword hspells)

theorem Keyword.isAscii_word (keyword : Keyword) :
    ∀ letter ∈ keyword.word.toList, IsAscii letter := by
  rcases keyword with role | _ | _ | _ | _ | _ | _ | _ | kind | kind | _
  case declare => cases role <;> decide
  case opening => cases kind <;> decide
  case divider => cases kind <;> decide
  all_goals decide

theorem MessageKind.isAscii_arrow (kind : MessageKind) :
    ∀ char ∈ kind.arrow.toList, IsAscii char := by
  cases kind <;> decide

namespace Reading

theorem attempt_eq (step? : Cursor → Option Cursor) (cursor : Cursor) :
    attempt step? cursor = .ok (match step? cursor with
      | some later => (true, later)
      | none => (false, cursor)) := rfl

theorem eatSide_eq (side : String) (cursor : Cursor) : eatSide side cursor =
    .ok (match (cursor.skipWord? followsWord side).bind fun later =>
        later.skipIndent.skipWord? followsWord "of" with
      | some later => (true, later)
      | none => (false, cursor)) := rfl

theorem keyword?_eq (cursor : Cursor) : keyword? cursor =
    .ok (match Keyword.all.findSome? fun keyword =>
        (cursor.skipWord? followsKeyword keyword.word).map fun later => (keyword, later) with
      | some (keyword, later) => (some keyword, later)
      | none => (none, cursor)) := rfl

theorem arrow?_eq (cursor : Cursor) : arrow? cursor =
    .ok (match MessageKind.all.find? fun kind => kind.arrow.toList.isPrefixOf cursor.rest with
      | some kind => (some kind, cursor.skip kind.arrow.length)
      | none => (none, cursor)) := rfl

theorem bracedText?_eq (cursor : Cursor) : bracedText? cursor =
    .ok (match cutAt? ['\x7d'] cursor.rest with
      | some (text, _) => (some text, cursor.skip (text.length + 1))
      | none => (none, cursor)) := rfl

end Reading

namespace Scan

section

variable {cursor : Cursor}

theorem exists_before (hleads : (Cursor.ofText code).Leads cursor) :
    ∃ before, code = before ++ cursor.rest ∧ cursor.offset = byteLength before := by
  obtain ⟨before, hcode, hoffset⟩ := hleads
  exact ⟨before, hcode, hoffset.trans (Nat.zero_add _)⟩

theorem isBoundary_offset (hleads : (Cursor.ofText code).Leads cursor) :
    IsBoundary code cursor.offset := by
  obtain ⟨before, hcode, hoffset⟩ := exists_before hleads
  exact isBoundary_iff.mpr ⟨before, cursor.rest, hcode, hoffset⟩

theorem exists_cursor {place : Nat} (hplace : IsBoundary code place) :
    ∃ cursor, (Cursor.ofText code).Leads cursor ∧ cursor.offset = place := by
  obtain ⟨before, after, hcode, rfl⟩ := isBoundary_iff.mp hplace
  exact ⟨⟨after, byteLength before⟩, ⟨before, hcode, (Nat.zero_add _).symm⟩, rfl⟩

theorem left_offset (hleads : (Cursor.ofText code).Leads cursor) :
    left code cursor.offset = octets cursor.rest := by
  obtain ⟨before, hcode, hoffset⟩ := exists_before hleads
  rw [left, hoffset, hcode, drop_octets]

theorem moveTo_offset (hleads : (Cursor.ofText code).Leads cursor) (place : Nat) :
    moveTo code cursor.offset place = .ok ((), cursor.offset) := by
  rw [moveTo, if_pos (isBoundary_offset hleads)]
  rfl

theorem slice_passed (hleads : (Cursor.ofText code).Leads cursor) {passed : List Char}
    (hpart : passed <+: cursor.rest) (place : Nat) :
    slice code cursor.offset (cursor.offset + byteLength passed) place = .ok (passed, place) := by
  obtain ⟨before, hcode, hoffset⟩ := exists_before hleads
  obtain ⟨rest, hrest⟩ := hpart
  rw [slice, hoffset, hcode, ← hrest, slice?_append]
  rfl

theorem slice_rest (hleads : (Cursor.ofText code).Leads cursor) (place : Nat) :
    slice code cursor.offset (octets code).length place = .ok (cursor.rest, place) := by
  obtain ⟨before, hcode, hoffset⟩ := exists_before hleads
  have hlength : (octets code).length = cursor.offset + byteLength cursor.rest := by
    rw [length_octets, hcode, byteLength_append, hoffset]
  rw [hlength]
  exact slice_passed hleads (List.prefix_refl _) place

theorem offset_le_length (hleads : (Cursor.ofText code).Leads cursor) :
    cursor.offset ≤ (octets code).length := by
  rw [length_octets]
  exact (isBoundary_offset hleads).le

theorem excerpt_offset (hleads : (Cursor.ofText code).Leads cursor) (place : Nat) :
    excerpt code cursor.offset place = .ok (cursor.excerpt, place) := by
  have hline : slice cursor.rest 0 (byteLength (cursor.rest.takeWhile (· != '\n'))) place =
      .ok (cursor.rest.takeWhile (· != '\n'), place) := by
    have hstart := slice_passed (Cursor.Leads.refl (Cursor.ofText cursor.rest))
      (List.takeWhile_prefix (· != '\n')) place
    rwa [show (Cursor.ofText cursor.rest).offset = 0 from rfl, Nat.zero_add] at hstart
  rw [excerpt, Nat.min_eq_left (offset_le_length hleads)]
  change (StateT.bind _ _) place = _
  simp only [StateT.bind, bind, Except.bind, slice_rest hleads, hline]
  rfl

end

theorem moveTo_bind {later : Cursor} (hleads : (Cursor.ofText code).Leads later) {place : Nat}
    (hplace : place = later.offset) {next : Unit → Scan α} (current : Nat) :
    (moveTo code place >>= next) current = next () later.offset := by
  rw [hplace]
  exact StateT.bind_of_ok (moveTo_offset hleads current)

theorem get_bind {next : Nat → Scan α} (place : Nat) : (get >>= next) place = next place place :=
  rfl

theorem skipIndent_mirrors : Mirrors code (skipIndent code) Reading.skipIndent where
  advances := Reading.skipIndent_advances
  agrees := by
    intro cursor hleads
    change moveTo code (cursor.offset + ((left code cursor.offset).takeWhile isIndent).length)
      cursor.offset = .ok ((), cursor.skipIndent.offset)
    rw [left_offset hleads, takeWhile_octets isAscii_of_isIndent, length_octets,
      ← Cursor.offset_skip (List.takeWhile_prefix isIndent)]
    exact moveTo_offset (hleads.trans cursor.leads_skipIndent) cursor.offset

theorem textUntil_mirrors {stops : List Char → Bool} (hstops : AsciiStops stops) :
    Mirrors code (textUntil code stops) (Reading.textUntil stops) where
  advances := Reading.textUntil_advances stops
  agrees := by
    intro cursor hleads
    have hpart := takeUntil_isPrefix stops cursor.rest
    have hlater := hleads.trans (cursor.leads_skip (takeUntil stops cursor.rest).length)
    rw [textUntil, get_bind, left_offset hleads, takeUntil_octets hstops, length_octets,
      ← Cursor.offset_skip hpart, StateT.bind_of_ok (moveTo_offset hlater _),
      Cursor.offset_skip hpart, slice_passed hleads hpart, ← Cursor.offset_skip hpart]
    rfl

theorem textToEnd_mirrors : Mirrors code (textToEnd code) Reading.textToEnd :=
  textUntil_mirrors endsStatement_ascii

theorem attempt_mirrors {step? : Nat → Option Nat} {step : Cursor → Option Cursor}
    (hadvances : Reading.Advances (Reading.attempt step))
    (hstep : ∀ cursor, (Cursor.ofText code).Leads cursor →
      step? cursor.offset = (step cursor).map Cursor.offset) :
    Mirrors code (attempt code step?) (Reading.attempt step) where
  advances := hadvances
  agrees := by
    intro cursor hleads
    have hread := Reading.attempt_eq step cursor
    rw [attempt, get_bind, hstep cursor hleads, hread]
    cases hfound : step cursor with
    | none => rfl
    | some later =>
        rw [hfound] at hread
        exact moveTo_bind (hleads.trans (hadvances _ _ _ hread)) rfl _

theorem eat_mirrors {char : Char} (hascii : IsAscii char) :
    Mirrors code (eat code char) (Reading.eat char) := by
  refine attempt_mirrors (Reading.eat_advances char) fun cursor hleads => ?_
  rw [left_offset hleads]
  by_cases hhead : cursor.rest.head? = some char
  · obtain ⟨rest, hrest⟩ := List.head?_eq_some_iff.mp hhead
    have hpart : [char] <+: cursor.rest := ⟨rest, hrest.symm⟩
    have hskip := Cursor.offset_skip hpart
    rw [if_pos ((head?_octets hascii _).mpr hhead), if_pos hhead, Option.map_some]
    rw [byteLength, utf8Size_ascii hascii] at hskip
    exact congrArg some hskip.symm
  · rw [if_neg (mt (head?_octets hascii _).mp hhead), if_neg hhead]
    rfl

theorem skipWord?_offset {cursor : Cursor} (hleads : (Cursor.ofText code).Leads cursor)
    {follows : List Char → Bool} (hfollows : ∀ text, follows (octets text) = follows text)
    {word : String} (hword : ∀ letter ∈ word.toList, IsAscii letter) :
    skipWord? code follows word cursor.offset =
      (cursor.skipWord? follows word).map Cursor.offset := by
  rw [skipWord?, left_offset hleads, dropWord?_octets hword, Cursor.skipWord?]
  cases hdrop : dropWord? word.toList cursor.rest with
  | none => rfl
  | some rest =>
      obtain ⟨spelled, hrest, hspelled⟩ := dropWord?_eq_some_iff.mp hdrop
      have hspells : Spells word spelled := hspelled
      have hskip := Cursor.offset_skip ⟨rest, hrest.symm⟩
      rw [hspells.byteLength_eq hword, hspells.length_eq] at hskip
      rw [Option.map_some]
      dsimp only
      rw [hfollows, ← hskip]
      split <;> rfl

theorem eatWord_mirrors {word : String} (hword : ∀ letter ∈ word.toList, IsAscii letter) :
    Mirrors code (eatWord code word) (Reading.eatWord word) :=
  attempt_mirrors (Reading.eatWord_advances word) fun _ hleads =>
    skipWord?_offset hleads followsWord_octets hword

theorem eatSide_mirrors {side : String} (hside : ∀ letter ∈ side.toList, IsAscii letter) :
    Mirrors code (eatSide code side) (Reading.eatSide side) where
  advances := Reading.eatSide_advances side
  agrees := by
    intro cursor hleads
    have hback {place : Nat} : (moveTo code cursor.offset >>= fun _ => pure false) place =
        outcome (.ok (false, cursor)) :=
      moveTo_bind hleads rfl place
    have hfirst := (eatWord_mirrors hside).agrees cursor hleads
    rw [Reading.eatWord, Reading.attempt_eq] at hfirst
    rw [eatSide, get_bind, Reading.eatSide_eq]
    cases hskip : cursor.skipWord? Reading.followsWord side with
    | none =>
        rw [hskip] at hfirst
        exact (StateT.bind_of_ok hfirst).trans hback
    | some between =>
        have hbetween := hleads.trans (Cursor.leads_skipWord? hskip)
        have hindent := hbetween.trans between.leads_skipIndent
        have hof : ∀ letter ∈ "of".toList, IsAscii letter := by decide
        have hsecond := (eatWord_mirrors hof).agrees between.skipIndent hindent
        rw [Reading.eatWord, Reading.attempt_eq] at hsecond
        rw [hskip] at hfirst
        refine (StateT.bind_of_ok hfirst).trans
          ((StateT.bind_of_ok (skipIndent_mirrors.agrees between hbetween)).trans ?_)
        rw [Option.bind_some]
        cases hskipOf : between.skipIndent.skipWord? Reading.followsWord "of" with
        | none =>
            rw [hskipOf] at hsecond
            exact (StateT.bind_of_ok hsecond).trans hback
        | some later =>
            rw [hskipOf] at hsecond
            exact (StateT.bind_of_ok hsecond).trans rfl

theorem keyword?_mirrors : Mirrors code (keyword? code) Reading.keyword? where
  advances := Reading.keyword?_advances
  agrees := by
    intro cursor hleads
    have hread := Reading.keyword?_eq cursor
    have hscan : (Keyword.all.findSome? fun keyword =>
        (skipWord? code Reading.followsKeyword keyword.word cursor.offset).map fun later =>
          (keyword, later)) =
        (Keyword.all.findSome? fun keyword =>
          (cursor.skipWord? Reading.followsKeyword keyword.word).map fun later =>
            (keyword, later)).map fun found => (found.1, found.2.offset) := by
      rw [List.map_findSome?]
      refine congrArg (Keyword.all.findSome? ·) (funext fun keyword => ?_)
      rw [skipWord?_offset hleads followsKeyword_octets keyword.isAscii_word, Option.map_map,
        Function.comp_apply, Option.map_map]
      rfl
    rw [keyword?, get_bind, hread]
    simp only [hscan]
    cases hfound : Keyword.all.findSome? fun keyword =>
        (cursor.skipWord? Reading.followsKeyword keyword.word).map fun later =>
          (keyword, later) with
    | none => rfl
    | some found =>
        obtain ⟨keyword, later⟩ := found
        rw [hfound] at hread
        have hlater := Reading.keyword?_advances _ _ _ hread
        exact moveTo_bind (hleads.trans hlater) rfl _

theorem arrow?_mirrors : Mirrors code (arrow? code) Reading.arrow? where
  advances := Reading.arrow?_advances
  agrees := by
    intro cursor hleads
    rw [arrow?, get_bind, StateT.bind_of_ok (slice_rest hleads _), Reading.arrow?_eq]
    cases hfound : MessageKind.all.find? fun kind =>
        kind.arrow.toList.isPrefixOf cursor.rest with
    | none => rfl
    | some kind =>
        have hpart : kind.arrow.toList.isPrefixOf cursor.rest = true :=
          List.find?_some (p := fun kind : MessageKind => kind.arrow.toList.isPrefixOf cursor.rest)
            hfound
        have hskip := Cursor.offset_skip (List.isPrefixOf_iff_prefix.mp hpart)
        rw [byteLength_ascii kind.isAscii_arrow, String.length_toList] at hskip
        exact moveTo_bind (hleads.trans (cursor.leads_skip _)) hskip.symm _

theorem bracedText?_mirrors : Mirrors code (bracedText? code) Reading.bracedText? where
  advances := Reading.bracedText?_advances
  agrees := by
    intro cursor hleads
    rw [bracedText?, get_bind, StateT.bind_of_ok (slice_rest hleads _), Reading.bracedText?_eq]
    cases hcut : cutAt? ['\x7d'] cursor.rest with
    | none => rfl
    | some found =>
        obtain ⟨text, after⟩ := found
        have hrest := eq_of_cutAt?_eq_some hcut
        have hpart : text <+: cursor.rest := ⟨_, by rw [hrest, List.append_assoc]⟩
        have hskip := Cursor.offset_skip ⟨after, hrest.symm⟩
        rw [List.length_append, byteLength_append, ← Nat.add_assoc] at hskip
        exact (StateT.bind_of_ok (slice_passed hleads hpart _)).trans
          (moveTo_bind (hleads.trans (cursor.leads_skip _)) hskip.symm _)

theorem actor_mirrors (missing : Complaint) :
    Mirrors code (actor code missing) (Reading.actor missing) := by
  refine mirrors_bind (textUntil_mirrors endsActor_ascii) fun name => ?_
  exact mirrors_ite _ (mirrors_complain _) (mirrors_pure _)

theorem placement_mirrors : Mirrors code (placement code) Reading.placement := by
  unfold placement Reading.placement
  refine mirrors_bind (eatSide_mirrors (by decide)) fun left => ?_
  refine mirrors_ite _ (mirrors_pure _) ?_
  refine mirrors_bind (eatSide_mirrors (by decide)) fun right => ?_
  refine mirrors_ite _ (mirrors_pure _) ?_
  refine mirrors_bind (eatWord_mirrors (by decide)) fun across => ?_
  exact mirrors_ite _ (mirrors_pure _) (mirrors_complain _)

theorem declaration_mirrors (role : ActorRole) :
    Mirrors code (declaration code role) (Reading.declaration role) := by
  refine mirrors_bind skipIndent_mirrors fun _ => ?_
  refine mirrors_bind textToEnd_mirrors fun text => ?_
  exact mirrors_ite _ (mirrors_complain _) (mirrors_pure _)

theorem title_mirrors : Mirrors code (title code) Reading.title := by
  refine mirrors_bind skipIndent_mirrors fun _ => ?_
  refine mirrors_bind (eat_mirrors (by decide)) fun _ => ?_
  exact mirrors_bind textToEnd_mirrors fun text => mirrors_pure _

theorem accTitle_mirrors : Mirrors code (accTitle code) Reading.accTitle := by
  refine mirrors_bind skipIndent_mirrors fun _ => ?_
  refine mirrors_bind (eat_mirrors (by decide)) fun colon => ?_
  refine mirrors_ite _ ?_ (mirrors_complain _)
  exact mirrors_bind textToEnd_mirrors fun text => mirrors_pure _

theorem accDescription_mirrors : Mirrors code (accDescription code) Reading.accDescription := by
  refine mirrors_bind skipIndent_mirrors fun _ => ?_
  refine mirrors_bind (eat_mirrors (by decide)) fun colon => ?_
  refine mirrors_ite _ (mirrors_bind textToEnd_mirrors fun text => mirrors_pure _) ?_
  refine mirrors_bind (eat_mirrors (by decide)) fun brace => ?_
  refine mirrors_ite _ ?_ (mirrors_complain _)
  refine mirrors_bind bracedText?_mirrors fun text => ?_
  cases text with
  | none => exact mirrors_complain _
  | some text => exact mirrors_pure _

theorem actorToEnd_mirrors : Mirrors code (actorToEnd code) Reading.actorToEnd := by
  refine mirrors_bind skipIndent_mirrors fun _ => ?_
  refine mirrors_bind textToEnd_mirrors fun name => ?_
  exact mirrors_ite _ (mirrors_complain _) (mirrors_pure _)

theorem label_mirrors : Mirrors code (label code) Reading.label :=
  mirrors_bind textToEnd_mirrors fun _ => mirrors_pure _

theorem noteText_mirrors (placement : NotePlacement) (first : String) (second : Option String) :
    Mirrors code (noteText code placement first second)
      (Reading.noteText placement first second) := by
  refine mirrors_bind (eat_mirrors (by decide)) fun colon => ?_
  refine mirrors_ite _ ?_ (mirrors_complain _)
  exact mirrors_bind label_mirrors fun text => mirrors_pure _

theorem note_mirrors : Mirrors code (note code) Reading.note := by
  refine mirrors_bind skipIndent_mirrors fun _ => ?_
  refine mirrors_bind placement_mirrors fun placement => ?_
  refine mirrors_bind skipIndent_mirrors fun _ => ?_
  refine mirrors_bind (actor_mirrors _) fun first => ?_
  refine mirrors_bind skipIndent_mirrors fun _ => ?_
  refine mirrors_bind (eat_mirrors (by decide)) fun comma => ?_
  refine mirrors_ite _ ?_ (noteText_mirrors _ _ _)
  refine mirrors_bind skipIndent_mirrors fun _ => ?_
  refine mirrors_bind (actor_mirrors _) fun second => ?_
  exact mirrors_bind skipIndent_mirrors fun _ => noteText_mirrors _ _ _

theorem operands_mirrors (keyword : Keyword) :
    Mirrors code (operands code keyword) (Reading.operands keyword) := by
  cases keyword with
  | declare role => exact declaration_mirrors role
  | autonumber => exact mirrors_pure _
  | title => exact title_mirrors
  | accTitle => exact accTitle_mirrors
  | accDescription => exact accDescription_mirrors
  | activate => exact mirrors_bind actorToEnd_mirrors fun _ => mirrors_pure _
  | deactivate => exact mirrors_bind actorToEnd_mirrors fun _ => mirrors_pure _
  | note => exact note_mirrors
  | opening kind => exact mirrors_bind label_mirrors fun _ => mirrors_pure _
  | divider kind => exact mirrors_bind label_mirrors fun _ => mirrors_pure _
  | closing => exact mirrors_pure _

theorem edge?_mirrors : Mirrors code (edge? code) Reading.edge? := by
  refine mirrors_bind (eat_mirrors (by decide)) fun plus => ?_
  refine mirrors_ite _ (mirrors_pure _) ?_
  refine mirrors_bind (eat_mirrors (by decide)) fun minus => ?_
  exact mirrors_ite _ (mirrors_pure _) (mirrors_pure _)

theorem messageText_mirrors : Mirrors code (messageText code) Reading.messageText := by
  refine mirrors_bind (eat_mirrors (by decide)) fun colon => ?_
  exact mirrors_ite _ label_mirrors (mirrors_pure _)

theorem messageFrom_mirrors (source : String) (unrecognized : Complaint) :
    Mirrors code (messageFrom code source unrecognized)
      (Reading.messageFrom source unrecognized) := by
  refine mirrors_bind skipIndent_mirrors fun _ => ?_
  refine mirrors_bind arrow?_mirrors fun arrow => ?_
  cases arrow with
  | none => exact mirrors_complain _
  | some kind =>
      refine mirrors_bind skipIndent_mirrors fun _ => ?_
      refine mirrors_bind edge?_mirrors fun edge => ?_
      refine mirrors_bind skipIndent_mirrors fun _ => ?_
      refine mirrors_bind (actor_mirrors _) fun target => ?_
      refine mirrors_bind skipIndent_mirrors fun _ => ?_
      exact mirrors_bind messageText_mirrors fun text => mirrors_pure _

theorem excerpt_mirrors : Mirrors code (do excerpt code (← get))
    (do return (← get).excerpt) where
  advances := Reading.advances_bind Reading.advances_get fun _ => Reading.advances_pure _
  agrees cursor hleads := excerpt_offset hleads cursor.offset

theorem message_mirrors : Mirrors code (message code) Reading.message :=
  mirrors_bind excerpt_mirrors fun shown =>
    mirrors_bind (actor_mirrors (.unrecognized shown)) fun source =>
      messageFrom_mirrors source (.unrecognized shown)

/-- **Statements in octets.** Wherever a statement begins, it is read from the octets with the same
outcome as from the characters, with no place and no slice inside a character. -/
theorem statement_mirrors : Mirrors code (statement code) Reading.statement := by
  refine mirrors_bind keyword?_mirrors fun keyword => ?_
  cases keyword with
  | none => exact message_mirrors
  | some keyword => exact operands_mirrors keyword

theorem skipBlank_offset {cursor : Cursor} (hleads : (Cursor.ofText code).Leads cursor) :
    skipBlank code cursor.offset = .ok ((), cursor.skipBlank.offset) := by
  rw [skipBlank, get_bind, left_offset hleads, blankLength_octets]
  exact moveTo_offset (hleads.trans cursor.leads_skipBlank) cursor.offset

end Scan

end SequenceChart
