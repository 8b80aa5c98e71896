import SequenceChart.Proofs.Lexing
import SequenceChart.Proofs.Sanitizing

/-!
# Payloads

A directive carries the object that its payload is a text of. Single quotes in the payload are read
as double ones, wherever they stand. So a payload without single quotes is read as it is written,
while one with a single quote inside a string is not: the string ends there.
-/

namespace SequenceChart

theorem eq_nil_of_prefix_cons {mark rest : List Char} {char : Char} (hchar : char ∉ mark)
    (hleads : mark <+: char :: rest) : mark = [] := by
  cases mark with
  | nil => rfl
  | cons first mark =>
      obtain ⟨rfl, -⟩ := List.cons_prefix_cons.mp hleads
      exact absurd List.mem_cons_self hchar

theorem prefix_of_prefix_unifyLineBreaks {mark text : List Char} (hbreak : '\n' ∉ mark)
    (hleads : mark <+: unifyLineBreaks text) : mark <+: text := by
  fun_induction unifyLineBreaks text generalizing mark with
  | case1 => exact hleads
  | case2 | case3 =>
      rw [eq_nil_of_prefix_cons hbreak hleads]
      exact List.nil_prefix
  | case4 char rest _ _ ih =>
      cases mark with
      | nil => exact List.nil_prefix
      | cons first mark =>
          obtain ⟨rfl, hmark⟩ := List.cons_prefix_cons.mp hleads
          rw [List.mem_cons, not_or] at hbreak
          exact List.cons_prefix_cons.mpr ⟨rfl, ih hbreak.2 hmark⟩

/-- A mark without line breaks stands in the text as it was written if it stands in the uniform
one. -/
theorem infix_of_infix_unifyLineBreaks {mark text : List Char} (hbreak : '\n' ∉ mark)
    (hwithin : mark <:+: unifyLineBreaks text) : mark <:+: text := by
  fun_induction unifyLineBreaks text with
  | case1 => exact hwithin
  | case2 rest ih =>
      rcases List.infix_cons_iff.mp hwithin with hleads | hrest
      · rw [eq_nil_of_prefix_cons hbreak hleads]
        exact List.nil_infix
      · exact List.infix_cons (List.infix_cons (ih hrest))
  | case3 rest _ ih =>
      rcases List.infix_cons_iff.mp hwithin with hleads | hrest
      · rw [eq_nil_of_prefix_cons hbreak hleads]
        exact List.nil_infix
      · exact List.infix_cons (ih hrest)
  | case4 char rest _ hreturn ih =>
      rcases List.infix_cons_iff.mp hwithin with hleads | hrest
      · rw [← unifyLineBreaks_cons hreturn] at hleads
        exact (prefix_of_prefix_unifyLineBreaks hbreak hleads).isInfix
      · exact List.infix_cons (ih hrest)

theorem infix_of_infix_append {mark : List Char} {char : Char} {before text : List Char}
    (hbefore : char ∉ before) (hwithin : char :: mark <:+: before ++ text) :
    char :: mark <:+: text := by
  induction before with
  | nil => exact hwithin
  | cons first before ih =>
      rw [List.mem_cons, not_or] at hbefore
      rcases List.infix_cons_iff.mp hwithin with hleads | hrest
      · exact absurd (List.cons_prefix_cons.mp hleads).1 hbefore.1
      · exact ih hbefore.2 hrest

theorem cutAt?_eq_none_of_absent {mark text : List Char} (hmark : mark ≠ [])
    (hnone : ¬mark <:+: text) : cutAt? mark text = none := by
  rw [← Json.occursIn_iff hmark] at hnone
  exact Option.not_isSome_iff_eq_none.mp hnone

/-- The first mark that closes a directive does not overlap what stands before it. -/
theorem cutAt?_directiveEnd {content : List Char} (hcontent : ¬directiveEnd <:+: content)
    (rest : List Char) :
    cutAt? directiveEnd (content ++ directiveEnd ++ rest) = some (content, rest) := by
  induction content with
  | nil => rfl
  | cons char content ih =>
      have hlater : ¬directiveEnd <:+: content := fun hwithin => hcontent (List.infix_cons hwithin)
      have hstart :
          ¬directiveEnd.isPrefixOf (char :: (content ++ directiveEnd ++ rest)) = true := by
        rw [List.isPrefixOf_iff_prefix]
        intro hleads
        obtain ⟨rfl, hsigns⟩ := List.cons_prefix_cons.mp hleads
        rcases content with _ | ⟨second, _ | ⟨third, content⟩⟩
        · exact absurd (List.cons_prefix_cons.mp hsigns).1 (by decide)
        · obtain ⟨-, hsign⟩ := List.cons_prefix_cons.mp hsigns
          exact absurd (List.cons_prefix_cons.mp hsign).1 (by decide)
        · obtain ⟨rfl, hsign⟩ := List.cons_prefix_cons.mp hsigns
          obtain ⟨rfl, -⟩ := List.cons_prefix_cons.mp hsign
          exact hcontent ⟨[], content, rfl⟩
      rw [List.cons_append, List.cons_append, cutAt?, if_neg hstart, ih hlater]
      rfl

/-- A single quote stands for a double one. -/
def doubleQuote (char : Char) : Char :=
  if char = '\'' then '"' else char

theorem doubleQuote_of_ne {char : Char} (hquote : char ≠ '\'') : doubleQuote char = char :=
  if_neg hquote

theorem doubleQuote_eq_iff {char other : Char} (hother : other ≠ '\'' ∧ other ≠ '"') :
    doubleQuote char = other ↔ char = other := by
  unfold doubleQuote
  split
  · rename_i hquote
    rw [hquote]
    exact iff_of_false (Ne.symm hother.2) (Ne.symm hother.1)
  · exact Iff.rfl

theorem isBlank_doubleQuote (char : Char) : isBlank (doubleQuote char) = isBlank char := by
  unfold doubleQuote
  split
  · rename_i hquote
    rw [hquote]
    rfl
  · rfl

theorem map_doubleQuote_eq_self {text : List Char} (hquote : '\'' ∉ text) :
    text.map doubleQuote = text := by
  calc
    text.map doubleQuote = text.map id := by
      apply List.map_congr_left
      intro char hchar
      exact doubleQuote_of_ne fun heq => hquote (heq ▸ hchar)
    _ = text := List.map_id text

theorem dropWhile_isBlank_map (text : List Char) :
    (text.map doubleQuote).dropWhile isBlank = (text.dropWhile isBlank).map doubleQuote := by
  rw [List.dropWhile_map]
  congr 2
  funext char
  exact isBlank_doubleQuote char

theorem trim_map (text : List Char) :
    trim (text.map doubleQuote) = (trim text).map doubleQuote := by
  unfold trim dropEndBlanks dropBlanks
  rw [dropWhile_isBlank_map, ← List.map_reverse, dropWhile_isBlank_map, List.map_reverse]

theorem unifyLineBreaks_map (text : List Char) :
    unifyLineBreaks (text.map doubleQuote) = (unifyLineBreaks text).map doubleQuote := by
  fun_induction unifyLineBreaks text with
  | case1 => rfl
  | case2 rest ih => exact congrArg (List.cons '\n') ih
  | case3 rest hrest ih =>
      rw [List.map_cons, List.map_cons, ← ih]
      apply unifyLineBreaks.eq_3
      intro more hmore
      cases rest with
      | nil => cases hmore
      | cons char rest =>
          obtain ⟨hchar, -⟩ := List.cons.inj hmore
          exact hrest rest (by rw [(doubleQuote_eq_iff (by decide)).mp hchar])
  | case4 char rest _ hreturn ih =>
      have hkept : doubleQuote char ≠ '\r' := by
        rw [ne_eq, doubleQuote_eq_iff (by decide)]
        exact hreturn
      rw [List.map_cons, List.map_cons, unifyLineBreaks_cons hkept, ih]

namespace Json

variable {text : List Char} {value : Json}

theorem parse?_eq_some_iff : parse? text = some value ↔ ∃ tokens, Lexed text tokens ∧
    tokens.foldlM (Machine.step .strict) { frames := [], expected := .value } =
      some { frames := [], expected := .separator value } := by
  unfold parse? read?
  constructor
  · intro hparse
    obtain ⟨tokens, htokens, hparse⟩ := Option.bind_eq_some_iff.mp hparse
    obtain ⟨⟨frames, expected⟩, hmachine, hparse⟩ := Option.bind_eq_some_iff.mp hparse
    refine ⟨tokens, lexed_of_tokens? htokens, ?_⟩
    rw [hmachine]
    dsimp only at hparse
    split at hparse
    · rw [Option.some.inj hparse]
    · cases hparse
  · rintro ⟨tokens, hlexed, hmachine⟩
    exact Option.bind_eq_some_iff.mpr
      ⟨tokens, hlexed.tokens?, Option.bind_eq_some_iff.mpr ⟨_, hmachine, rfl⟩⟩

/-- Uniform line breaks and trimming do not change the value of a text. -/
theorem parse?_trim_unifyLineBreaks (hparse : parse? text = some value) :
    parse? (trim (unifyLineBreaks text)) = some value := by
  obtain ⟨tokens, hlexed, hmachine⟩ := parse?_eq_some_iff.mp hparse
  exact parse?_eq_some_iff.mpr ⟨tokens, hlexed.unifyLineBreaks.trim, hmachine⟩

/-- Nothing follows a value outside of arrays and objects. -/
theorem Machine.eq_of_foldlM_separator {tokens : List Token} {finished : Json} {machine : Machine}
    (hrun : tokens.foldlM (step .strict) { frames := [], expected := .separator finished } =
      some machine) : machine = { frames := [], expected := .separator finished } := by
  cases tokens with
  | nil => exact (Option.some.inj hrun).symm
  | cons token rest =>
      rw [List.foldlM_cons] at hrun
      obtain ⟨next, hnext, -⟩ := Option.bind_eq_some_iff.mp hrun
      cases token <;> cases hnext

/-- A text of an object does not start with a scalar. -/
theorem Machine.opens_of_object {token : Token} {rest : List Token} {entries : Entries}
    (hrun : (token :: rest).foldlM (step .strict) { frames := [], expected := .value } =
      some { frames := [], expected := .separator (.object entries) }) :
    token = .openObject ∨ token = .openArray := by
  rw [List.foldlM_cons] at hrun
  obtain ⟨next, hnext, hrest⟩ := Option.bind_eq_some_iff.mp hrun
  have hscalar (scalar : Json) (hfinished : finish [] scalar = some next) :
      scalar = .object entries := by
    rw [← Option.some.inj hfinished] at hrest
    have hsame := congrArg Machine.expected (eq_of_foldlM_separator hrest)
    exact (Expected.separator.inj hsame).symm
  cases token with
  | openObject => exact .inl rfl
  | openArray => exact .inr rfl
  | null => exact nomatch hscalar _ hnext
  | bool value => exact nomatch hscalar _ hnext
  | number value =>
      cases value with
      | none => cases hnext
      | some number => exact nomatch hscalar _ hnext
  | string value =>
      cases value with
      | none => cases hnext
      | some string => exact nomatch hscalar _ hnext
  | closeArray | closeObject | comma | colon => cases hnext

theorem exists_bracket_of_object {entries : Entries}
    (hparse : parse? text = some (.object entries)) :
    ∃ behind, trim text = '\x7b' :: behind ∨ trim text = '[' :: behind := by
  obtain ⟨tokens, hlexed, hmachine⟩ := parse?_eq_some_iff.mp hparse
  have htrimmed := hlexed.trim
  have hhead : ∀ char, (trim text).head? = some char → isBlank char = false :=
    fun _ hhead => head?_trim hhead
  generalize trim text = core at htrimmed hhead ⊢
  cases htrimmed with
  | nil => cases congrArg Machine.expected (Option.some.inj hmachine)
  | @cons spaces chunk rest token tokens hspaces hspelled _ =>
      have hnone : spaces = [] := by
        cases spaces with
        | nil => rfl
        | cons char spaces =>
            have hblank := isBlank_of_isSpace (hspaces char List.mem_cons_self)
            exact absurd ((hhead char rfl).symm.trans hblank) Bool.false_ne_true
      subst hnone
      refine ⟨rest, ?_⟩
      rcases Machine.opens_of_object hmachine with rfl | rfl
      · rw [hspelled.spelling _ rfl]
        exact .inl rfl
      · rw [hspelled.spelling _ rfl]
        exact .inr rfl

end Json

namespace Directive

variable {payload : List Char} {entries : Entries}

theorem readJson?_trim_unifyLineBreaks
    (hread : readJson? payload = some (.object entries)) :
    readJson? (trim (unifyLineBreaks payload)) = some (.object entries) := by
  obtain ⟨value, hparse, hvalue⟩ := Option.map_eq_some_iff.mp hread
  have htrimmed := Json.parse?_trim_unifyLineBreaks hparse
  refine Option.map_eq_some_iff.mpr ⟨value, ?_, hvalue⟩
  change Json.parse? ((trim (unifyLineBreaks payload)).map doubleQuote) = some value
  rw [← trim_map, ← unifyLineBreaks_map]
  exact htrimmed

/-- The text of an object starts with a bracket, where it is not blank. -/
theorem exists_bracket_of_readJson? (hread : readJson? payload = some (.object entries)) :
    ∃ behind, trim (unifyLineBreaks payload) = '\x7b' :: behind ∨
      trim (unifyLineBreaks payload) = '[' :: behind := by
  obtain ⟨value, hparse, hvalue⟩ := Option.map_eq_some_iff.mp hread
  obtain ⟨given, rfl⟩ : ∃ given, value = .object given := by
    cases value with
    | object given => exact ⟨given, rfl⟩
    | null | bool | number | string | array => cases hvalue
  have htrimmed := Json.parse?_trim_unifyLineBreaks hparse
  obtain ⟨behind, hbehind⟩ := Json.exists_bracket_of_object htrimmed
  have hmapped : trim (trim (unifyLineBreaks (payload.map doubleQuote))) =
      (trim (unifyLineBreaks payload)).map doubleQuote := by
    rw [trim_trim, unifyLineBreaks_map, trim_map]
  change trim (trim (unifyLineBreaks (payload.map doubleQuote))) = _ ∨
    trim (trim (unifyLineBreaks (payload.map doubleQuote))) = _ at hbehind
  rw [hmapped] at hbehind
  have hfirst {bracket : Char} (hbracket : bracket ≠ '\'' ∧ bracket ≠ '"')
      (hstarts : (trim (unifyLineBreaks payload)).map doubleQuote = bracket :: behind) :
      ∃ rest, trim (unifyLineBreaks payload) = bracket :: rest := by
    obtain ⟨char, rest, htext, hchar, -⟩ := List.map_eq_cons_iff.mp hstarts
    rw [(doubleQuote_eq_iff hbracket).mp hchar] at htext
    exact ⟨rest, htext⟩
  rcases hbehind with hbrace | hbracket
  · obtain ⟨rest, hrest⟩ := hfirst (by decide) hbrace
    exact ⟨rest, .inl hrest⟩
  · obtain ⟨rest, hrest⟩ := hfirst (by decide) hbracket
    exact ⟨rest, .inr hrest⟩

theorem readPayload_of_readJson? (name : String)
    (hread : readJson? payload = some (.object entries)) :
    readPayload name (trim (unifyLineBreaks payload)) = .ok (some (.object entries)) := by
  have htrimmed := readJson?_trim_unifyLineBreaks hread
  obtain ⟨behind, hbrace | hbracket⟩ := exists_bracket_of_readJson? hread
  · rw [hbrace] at htrimmed ⊢
    unfold readPayload
    simp only [htrimmed]
  · rw [hbracket] at htrimmed ⊢
    unfold readPayload
    simp only [htrimmed]

/-- A name and a payload behind a colon are read apart. -/
theorem read_of_readJson? (kind : FragmentKind)
    (hread : readJson? payload = some (.object entries)) :
    read (kind.name.toList ++ ':' :: ' ' :: unifyLineBreaks payload) =
      .ok (some { name := kind.name, payload := some (.object entries) }) := by
  have hpayload := readPayload_of_readJson? kind.name hread
  obtain ⟨before, after, hsplit, hbefore, hafter⟩ := exists_trim (unifyLineBreaks payload)
  generalize hcore : trim (unifyLineBreaks payload) = core at hpayload hsplit
  have htrimmed : trim core = core := by
    rw [← hcore, trim_trim]
  have hcore_ne : core ≠ [] := by
    rintro rfl
    cases hpayload
  have hname : trim kind.name.toList = kind.name.toList ∧ kind.name.toList ≠ [] := by
    cases kind <;> decide
  have htext : trim (kind.name.toList ++ ':' :: ' ' :: unifyLineBreaks payload) =
      kind.name.toList ++ ':' :: ' ' :: (before ++ core) := by
    have hparts : kind.name.toList ++ ':' :: ' ' :: (before ++ core ++ after) =
        kind.name.toList ++ (':' :: ' ' :: before) ++ core ++ after := by
      simp
    rw [hsplit, hparts, trim_append_blanks hafter,
      trim_append_append hname.1 htrimmed hname.2 hcore_ne]
    simp
  have hletters : ∀ char ∈ kind.name.toList, isNameChar char = true := by
    cases kind <;> exact List.all_eq_true.mp (by decide)
  have hcolon : ∀ char, (':' :: ' ' :: (before ++ core)).head? = some char →
      isNameChar char = false := by
    intro char hchar
    rw [← Option.some.inj hchar]
    decide
  obtain ⟨htake, hdrop⟩ := takeWhile_isNameChar_append hletters hcolon
  have hrest : trim (' ' :: (before ++ core)) = core := by
    have hblanks : ∀ char ∈ ' ' :: before, isBlank char = true :=
      List.forall_mem_cons.mpr ⟨rfl, hbefore⟩
    exact (trim_blanks_append hblanks).trans htrimmed
  have hnonempty : (kind.name.toList ++ ':' :: ' ' :: (before ++ core)).isEmpty = false ∧
      kind.name.isEmpty = false := by
    cases kind <;> exact ⟨rfl, rfl⟩
  have hbehind : dropBlanks (':' :: ' ' :: (before ++ core)) = ':' :: ' ' :: (before ++ core) :=
    rfl
  unfold read
  dsimp only
  rw [htext, hnonempty.1, if_neg Bool.false_ne_true, htake, hdrop, String.ofList_toList,
    hnonempty.2, if_neg Bool.false_ne_true, hbehind]
  simp only [hrest, hpayload]
  rfl

end Directive

namespace Source

/-- A directive with a payload on a line before the code. -/
def withPayload (kind : FragmentKind) (payload code : String) : String :=
  "%%\x7b" ++ kind.name ++ ": " ++ payload ++ "\x7d%%\n" ++ code

/-- The text is read with the fragment alone. -/
def CarriesOnly (text : String) (fragment : Fragment) : Prop :=
  ∃ source, read text = .ok source ∧ source.fragments = [fragment]

theorem unifyLineBreaks_withPayload (kind : FragmentKind) (payload code : String) :
    unifyLineBreaks (withPayload kind payload code).toList =
      directiveStart ++ (kind.name.toList ++ ':' :: ' ' :: unifyLineBreaks payload.toList ++
        directiveEnd ++ '\n' :: unifyLineBreaks code.toList) := by
  have htext : (withPayload kind payload code).toList =
      (directiveStart ++ kind.name.toList ++ [':', ' ']) ++
        (payload.toList ++ (directiveEnd ++ '\n' :: code.toList)) := by
    unfold withPayload
    simp [String.toList_append, directiveStart, directiveEnd]
  have hstart : '\r' ∉ directiveStart ++ kind.name.toList ++ [':', ' '] := by
    cases kind <;> decide
  have hend : (directiveEnd ++ '\n' :: code.toList).head? ≠ some '\n' := by
    intro hhead
    cases hhead
  have hcode : unifyLineBreaks (directiveEnd ++ '\n' :: code.toList) =
      directiveEnd ++ '\n' :: unifyLineBreaks code.toList := by
    rw [unifyLineBreaks_append_of_notMem (by decide), unifyLineBreaks_cons (by decide)]
  rw [htext, unifyLineBreaks_append_of_notMem hstart, unifyLineBreaks_append _ hend, hcode]
  simp

theorem carriesOnly_of_readJson? {kind : FragmentKind} {payload code : String} {entries : Entries}
    (hread : Directive.readJson? payload.toList = some (.object entries))
    (hend : ¬directiveEnd <:+: payload.toList) (hstart : ¬directiveStart <:+: code.toList) :
    CarriesOnly (withPayload kind payload code) { kind, entries := entries.sanitize } := by
  generalize hcontent : kind.name.toList ++ ':' :: ' ' :: unifyLineBreaks payload.toList = content
  generalize hrest : '\n' :: unifyLineBreaks code.toList = rest
  have hopen : ¬directiveEnd <:+: content := by
    rw [← hcontent]
    intro hwithin
    have hname : '\x7d' ∉ kind.name.toList ++ [':', ' '] := by
      cases kind <;> decide
    have hparts : kind.name.toList ++ ':' :: ' ' :: unifyLineBreaks payload.toList =
        (kind.name.toList ++ [':', ' ']) ++ unifyLineBreaks payload.toList := by
      simp
    rw [hparts] at hwithin
    exact hend (infix_of_infix_unifyLineBreaks (by decide) (infix_of_infix_append hname hwithin))
  have hlast : ¬directiveStart <:+: rest := by
    rw [← hrest]
    intro hwithin
    have hcode : directiveStart <:+: unifyLineBreaks code.toList :=
      infix_of_infix_append (by decide : '%' ∉ ['\n']) hwithin
    exact hstart (infix_of_infix_unifyLineBreaks (by decide) hcode)
  have hsegments : Segment.split (directiveStart ++ (content ++ directiveEnd ++ rest)) =
      [.plain [], .directive content, .plain rest] := by
    have hcut : cutAt? directiveStart (directiveStart ++ (content ++ directiveEnd ++ rest)) =
        some ([], content ++ directiveEnd ++ rest) := rfl
    rw [Segment.split_of_closed hcut (cutAt?_directiveEnd hopen rest),
      Segment.split_of_none (cutAt?_eq_none_of_absent (by decide) hlast)]
  have hdirectives : readDirectives 0 [.plain [], .directive content, .plain rest] =
      .ok [(0, { name := kind.name, payload := some (.object entries) })] := by
    have hdirective := Directive.read_of_readJson? kind hread
    rw [hcontent] at hdirective
    rw [readDirectives, readDirectives]
    exact Except.bind_eq_ok.mpr ⟨_, hdirective, rfl⟩
  have heffects : effects [(0, { name := kind.name, payload := some (.object entries) })] =
      .ok [(0, .fragment { kind, entries := entries.sanitize })] := by
    cases kind <;> rfl
  refine ⟨{ code := String.ofList (codeOf [.plain [], .directive content, .plain rest])
            title := none
            fragments := [{ kind, entries := entries.sanitize }]
            switches := [] }, ?_, rfl⟩
  unfold read
  rw [unifyLineBreaks_withPayload, hcontent, hrest]
  refine Except.bind_eq_ok.mpr ⟨({ title := none, config := none }, _), rfl, ?_⟩
  dsimp only
  rw [hsegments]
  exact Except.bind_eq_ok.mpr ⟨_, hdirectives, Except.bind_eq_ok.mpr ⟨_, heffects, rfl⟩⟩

/-- **Payloads.** A directive alone before the code carries the object that its payload is a text of
once single quotes are made double, if the payload does not close the directive. If there are no
single quotes in it, that is the object it is a text of as it stands. -/
theorem carriesOnly_payload (kind : FragmentKind) {payload code : String}
    (hend : ¬directiveEnd <:+: payload.toList) (hstart : ¬directiveStart <:+: code.toList) :
    (∀ entries : Entries, (Json.parse? (payload.toList.map doubleQuote)).map Json.unify =
        some (.object entries) →
      CarriesOnly (withPayload kind payload code) { kind, entries := entries.sanitize }) ∧
      ('\'' ∉ payload.toList → ∀ entries : Entries, (Json.parse? payload.toList).map Json.unify =
          some (.object entries) →
        CarriesOnly (withPayload kind payload code) { kind, entries := entries.sanitize }) := by
  constructor
  · intro entries hread
    exact carriesOnly_of_readJson? hread hend hstart
  · intro hquote entries hread
    rw [← map_doubleQuote_eq_self hquote] at hread
    exact carriesOnly_of_readJson? hread hend hstart

/-- A payload with escapes and spaces, and with the mark that starts a directive in a string. -/
def spaced : String :=
  "\r\n\x7b \"fontFamily\": \"\\u0041\\\"%%\x7b\",\r\n \"sequence\": \x7b\"width\": 15e1\x7d \x7d\r"

/-- The keys of the object that a text gives. -/
def keysOf? (text : String) : Option (List String) :=
  (Json.parse? text.toList).bind fun value =>
    match value.unify with
    | .object entries => some (Entries.keys entries)
    | _ => none

theorem exists_entries_of_keysOf? {text : String} {keys : List String}
    (hkeys : keysOf? text = some keys) : ∃ entries : Entries,
      (Json.parse? text.toList).map Json.unify = some (.object entries) ∧ entries.keys = keys := by
  obtain ⟨value, hvalue, hfound⟩ := Option.bind_eq_some_iff.mp hkeys
  rw [hvalue, Option.map_some]
  cases hunified : value.unify with
  | object entries =>
      rw [hunified] at hfound
      exact ⟨entries, rfl, Option.some.inj hfound⟩
  | null | bool | number | string | array =>
      rw [hunified] at hfound
      cases hfound

theorem spaced_carried : ∃ entries : Entries, entries.keys = ["fontFamily", "sequence"] ∧
    CarriesOnly (withPayload .config spaced "sequenceDiagram")
      { kind := .config, entries := entries.sanitize } := by
  have hend : ¬directiveEnd <:+: spaced.toList := by
    decide +kernel
  have hstart : ¬directiveStart <:+: "sequenceDiagram".toList := by
    decide +kernel
  have hquote : '\'' ∉ spaced.toList := by
    decide +kernel
  have hkeys : keysOf? spaced = some ["fontFamily", "sequence"] := by
    decide +kernel
  obtain ⟨entries, hread, hentries⟩ := exists_entries_of_keysOf? hkeys
  exact ⟨entries, hentries, (carriesOnly_payload .config hend hstart).2 hquote entries hread⟩

/-- The text of an object, with a single quote inside a string. -/
def apostrophe : String :=
  "\x7b\"fontFamily\": \"it's\"\x7d"

/-- A single quote inside a string ends it. -/
theorem apostrophe_refused :
    (∃ entries : Entries, (Json.parse? apostrophe.toList).map Json.unify = some (.object entries) ∧
        entries.keys = ["fontFamily"]) ∧
      ¬directiveEnd <:+: apostrophe.toList ∧ ¬directiveStart <:+: "sequenceDiagram".toList ∧
      read (withPayload .init apostrophe "sequenceDiagram") = .error (.payloadNotJson "init") := by
  have hkeys : keysOf? apostrophe = some ["fontFamily"] := by
    decide +kernel
  have hfault : (read (withPayload .init apostrophe "sequenceDiagram")).map (fun _ => ()) =
      .error (.payloadNotJson "init") := by
    decide +kernel
  refine ⟨exists_entries_of_keysOf? hkeys, by decide +kernel, by decide +kernel, ?_⟩
  cases hread : read (withPayload .init apostrophe "sequenceDiagram") with
  | error fault =>
      rw [hread] at hfault
      rw [Except.error.inj hfault]
  | ok source =>
      rw [hread] at hfault
      cases hfault

end Source

end SequenceChart
