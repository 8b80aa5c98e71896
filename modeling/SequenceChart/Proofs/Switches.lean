import SequenceChart.Proofs.Placement
import SequenceChart.Proofs.Printing

/-!
# Wrapping switches in the source

A directive that consists of a single word switches wrapping on or off. What the source keeps of it
is the place at which it stood, counted in what is left of the text. The switches that stand before
a character are those that stand no later than its place in the code.
-/

namespace SequenceChart

def switchWord (enabled : Bool) : String :=
  if enabled then "wrap" else "nowrap"

/-- What stands in a directive that switches wrapping: a single word, and maybe a colon that nothing
follows. -/
inductive SwitchContent (enabled : Bool) : List Char → Prop
  | mk {before blanks colon after : List Char} :
      (∀ char ∈ before, isBlank char = true) → (∀ char ∈ blanks, isBlank char = true) →
      (colon = [] ∨ colon = [':']) → (∀ char ∈ after, isBlank char = true) →
      SwitchContent enabled (before ++ (switchWord enabled).toList ++ blanks ++ colon ++ after)

namespace Piece

/-- The piece is a directive that switches wrapping. -/
def Switches (piece : Piece) (enabled : Bool) : Prop :=
  ∃ content, SwitchContent enabled content ∧
    piece = .removed (directiveStart ++ content ++ directiveEnd)

end Piece

def NoSwitch (pieces : List Piece) : Prop :=
  ∀ piece ∈ pieces, ∀ enabled, ¬piece.Switches enabled

/-- The last switch among the pieces. -/
def LastSwitch (pieces : List Piece) (enabled : Bool) : Prop :=
  ∃ early piece late, pieces = early ++ piece :: late ∧ piece.Switches enabled ∧ NoSwitch late

/-- A text is its trimmed part between blanks. -/
theorem exists_trim (text : List Char) : ∃ before after, text = before ++ trim text ++ after ∧
    (∀ char ∈ before, isBlank char = true) ∧ ∀ char ∈ after, isBlank char = true := by
  refine ⟨text.takeWhile isBlank, ((dropBlanks text).reverse.takeWhile isBlank).reverse, ?_,
    List.all_eq_true.mp List.all_takeWhile, ?_⟩
  · have hend : dropBlanks text =
        trim text ++ ((dropBlanks text).reverse.takeWhile isBlank).reverse := by
      rw [trim, dropEndBlanks, ← List.reverse_append, List.takeWhile_append_dropWhile,
        List.reverse_reverse]
    rw [List.append_assoc, ← hend]
    exact List.takeWhile_append_dropWhile.symm
  · intro char hchar
    exact List.all_eq_true.mp List.all_takeWhile char (List.mem_reverse.mp hchar)

theorem all_blank_of_trim {text : List Char} (htrim : trim text = []) :
    ∀ char ∈ text, isBlank char = true := by
  obtain ⟨before, after, htext, hbefore, hafter⟩ := exists_trim text
  rw [htrim, List.append_nil] at htext
  intro char hchar
  rw [htext] at hchar
  rcases List.mem_append.mp hchar with hmem | hmem
  · exact hbefore char hmem
  · exact hafter char hmem

namespace Directive

theorem effect?_wrap (enabled : Bool) :
    effect? { name := switchWord enabled, payload := none } = .ok (some (.wrap enabled)) := by
  cases enabled <;> rfl

theorem eq_of_effect?_wrap {directive : Directive} {enabled : Bool}
    (heffect : directive.effect? = .ok (some (.wrap enabled))) :
    directive = { name := switchWord enabled, payload := none } := by
  obtain ⟨name, payload⟩ := directive
  unfold effect? at heffect
  dsimp only at heffect
  split at heffect
  · cases hentries : readEntries "init" payload <;> rw [hentries] at heffect <;> cases heffect
  · cases hentries : readEntries "initialize" payload <;> rw [hentries] at heffect <;> cases heffect
  · cases hentries : readEntries "config" payload <;> rw [hentries] at heffect <;> cases heffect
  · cases heffect
    rfl
  · cases heffect
    rfl
  · cases heffect

theorem readPayload_eq_none {name : String} {text : List Char}
    (hpayload : readPayload name text = .ok none) : text = [] := by
  unfold readPayload at hpayload
  split at hpayload
  · rfl
  · split at hpayload <;> cases hpayload
  · split at hpayload <;> cases hpayload
  · cases hpayload

/-- A name without a payload is followed by a colon at most. -/
theorem read_eq_bare {content : List Char} {name : String}
    (hread : read content = .ok (some { name, payload := none })) :
    ∃ blanks colon, trim content = name.toList ++ blanks ++ colon ∧
      (∀ char ∈ blanks, isBlank char = true) ∧
      (colon = [] ∨ ∃ after, colon = ':' :: after ∧ ∀ char ∈ after, isBlank char = true) := by
  unfold read at hread
  dsimp only at hread
  generalize trim content = text at hread ⊢
  by_cases hempty : text.isEmpty = true
  · rw [if_pos hempty] at hread
    cases hread
  rw [if_neg hempty] at hread
  by_cases hname : (String.ofList (text.takeWhile isNameChar)).isEmpty = true
  · rw [if_pos hname] at hread
    cases hread
  rw [if_neg hname] at hread
  have htext : text = text.takeWhile isNameChar ++ (text.dropWhile isNameChar).takeWhile isBlank ++
      dropBlanks (text.dropWhile isNameChar) := by
    rw [List.append_assoc, dropBlanks, List.takeWhile_append_dropWhile,
      List.takeWhile_append_dropWhile]
  split at hread
  · rename_i hbehind
    obtain ⟨hfound, -⟩ := Directive.mk.inj (Option.some.inj (Except.ok.inj hread))
    rw [hbehind] at htext
    refine ⟨(text.dropWhile isNameChar).takeWhile isBlank, [], ?_,
      List.all_eq_true.mp List.all_takeWhile, .inl rfl⟩
    rw [← hfound, String.toList_ofList]
    exact htext
  · rename_i after hbehind
    obtain ⟨payload, hpayload, hread⟩ := Except.bind_eq_ok.mp hread
    obtain ⟨hfound, hnone⟩ := Directive.mk.inj (Option.some.inj (Except.ok.inj hread))
    rw [hnone] at hpayload
    rw [hbehind] at htext
    refine ⟨(text.dropWhile isNameChar).takeWhile isBlank, ':' :: after, ?_,
      List.all_eq_true.mp List.all_takeWhile,
      .inr ⟨after, rfl, all_blank_of_trim (readPayload_eq_none hpayload)⟩⟩
    rw [← hfound, String.toList_ofList]
    exact htext
  · cases hread

theorem trim_switchWord (enabled : Bool) :
    trim (switchWord enabled).toList = (switchWord enabled).toList := by
  cases enabled <;> decide

theorem isNameChar_of_isBlank {char : Char} (hblank : isBlank char = true) :
    isNameChar char = false := by
  have hcode : char.toNat = char.val.toNat := rfl
  rw [Bool.eq_false_iff]
  intro hname
  change (decide (char.val ≥ 'A'.val ∧ char.val ≤ 'Z'.val) ||
    (char.val ≥ 'a'.val && char.val ≤ 'z'.val) || (char.val ≥ '0'.val && char.val ≤ '9'.val) ||
      char == '_') = true at hname
  simp only [Bool.or_eq_true, Bool.and_eq_true, decide_eq_true_eq, beq_iff_eq, ge_iff_le,
    UInt32.le_iff_toNat_le] at hname
  simp only [isBlank, hcode, Bool.or_eq_true, Bool.and_eq_true, decide_eq_true_eq, beq_iff_eq]
    at hblank
  rcases hname with ((⟨hlow, hhigh⟩ | ⟨hlow, hhigh⟩) | ⟨hlow, hhigh⟩) | rfl
  · change 65 ≤ char.val.toNat at hlow
    change char.val.toNat ≤ 90 at hhigh
    omega
  · change 97 ≤ char.val.toNat at hlow
    change char.val.toNat ≤ 122 at hhigh
    omega
  · change 48 ≤ char.val.toNat at hlow
    change char.val.toNat ≤ 57 at hhigh
    omega
  · have hunderscore : '_'.val.toNat = 95 := rfl
    omega

theorem takeWhile_isNameChar_append {word rest : List Char}
    (hword : ∀ char ∈ word, isNameChar char = true)
    (hrest : ∀ char, rest.head? = some char → isNameChar char = false) :
    (word ++ rest).takeWhile isNameChar = word ∧ (word ++ rest).dropWhile isNameChar = rest := by
  have hnone : rest.takeWhile isNameChar = [] ∧ rest.dropWhile isNameChar = rest := by
    cases rest with
    | nil => exact ⟨rfl, rfl⟩
    | cons char rest =>
        have hchar : ¬isNameChar char = true := by simp [hrest char rfl]
        exact ⟨List.takeWhile_cons_of_neg hchar, List.dropWhile_cons_of_neg hchar⟩
  rw [List.takeWhile_append_of_pos hword, List.dropWhile_append_of_pos hword, hnone.1, hnone.2,
    List.append_nil]
  exact ⟨rfl, rfl⟩

theorem read_of_trim {content blanks colon : List Char} {enabled : Bool}
    (htrim : trim content = (switchWord enabled).toList ++ (blanks ++ colon))
    (hblanks : ∀ char ∈ blanks, isBlank char = true) (hcolon : colon = [] ∨ colon = [':']) :
    read content = .ok (some { name := switchWord enabled, payload := none }) := by
  have hword : ∀ char ∈ (switchWord enabled).toList, isNameChar char = true := by
    cases enabled <;> exact List.all_eq_true.mp (by decide)
  have hrest : ∀ char, (blanks ++ colon).head? = some char → isNameChar char = false := by
    intro char hhead
    have hmem := List.mem_of_head? hhead
    rcases List.mem_append.mp hmem with hblank | hmark
    · exact isNameChar_of_isBlank (hblanks char hblank)
    · rcases hcolon with rfl | rfl
      · cases hmark
      · rw [List.mem_singleton.mp hmark]
        decide
  obtain ⟨htake, hdrop⟩ := takeWhile_isNameChar_append hword hrest
  have hbehind : dropBlanks (blanks ++ colon) = colon := by
    rw [dropBlanks, List.dropWhile_append_of_pos hblanks]
    rcases hcolon with rfl | rfl <;> rfl
  unfold read
  dsimp only
  rw [htrim, htake, hdrop, hbehind]
  rcases hcolon with rfl | rfl
  · cases enabled <;> rfl
  · cases enabled <;> rfl

theorem read_of_switchContent {content : List Char} {enabled : Bool}
    (hcontent : SwitchContent enabled content) :
    read content = .ok (some { name := switchWord enabled, payload := none }) := by
  cases hcontent with
  | @mk before blanks colon after hbefore hblanks hcolon hafter =>
      have hword := trim_switchWord enabled
      rcases hcolon with rfl | rfl
      · refine @read_of_trim _ [] [] enabled ?_ nofun (.inl rfl)
        rw [List.append_nil, trim_append_blanks hafter, trim_append_blanks hblanks,
          trim_blanks_append hbefore, hword]
        exact (List.append_nil _).symm
      · refine read_of_trim ?_ hblanks (.inr rfl)
        rw [trim_append_blanks hafter, List.append_assoc, List.append_assoc,
          trim_blanks_append hbefore, ← List.append_assoc]
        exact trim_append_append hword rfl (by cases enabled <;> decide) (List.cons_ne_nil _ _)
          blanks

/-- A directive switches wrapping if it is the word alone. -/
theorem switchContent_iff {content : List Char} {enabled : Bool} :
    SwitchContent enabled content ↔ ∃ directive, read content = .ok (some directive) ∧
      directive.effect? = .ok (some (.wrap enabled)) := by
  constructor
  · intro hcontent
    exact ⟨_, read_of_switchContent hcontent, effect?_wrap enabled⟩
  · rintro ⟨directive, hread, heffect⟩
    obtain rfl := eq_of_effect?_wrap heffect
    obtain ⟨blanks, colon, htrim, hblanks, hcolon⟩ := read_eq_bare hread
    obtain ⟨before, after, hcontent, hbefore, hafter⟩ := exists_trim content
    rw [htrim] at hcontent
    rcases hcolon with rfl | ⟨behind, rfl, hbehind⟩
    · rw [hcontent, ← List.append_assoc, ← List.append_assoc]
      exact .mk hbefore hblanks (.inl rfl) hafter
    · have hend : ∀ char ∈ behind ++ after, isBlank char = true := by
        intro char hchar
        rcases List.mem_append.mp hchar with hmem | hmem
        · exact hbehind char hmem
        · exact hafter char hmem
      have hwhole : content = before ++ (switchWord enabled).toList ++ blanks ++ [':'] ++
          (behind ++ after) := by
        rw [hcontent]
        simp only [List.append_assoc, List.cons_append, List.nil_append]
      rw [hwhole]
      exact .mk hbefore hblanks (.inr rfl) hend

end Directive

namespace Piece

theorem switches_directive {content : List Char} {enabled : Bool} :
    Switches (.removed (directiveStart ++ content ++ directiveEnd)) enabled ↔
      SwitchContent enabled content := by
  constructor
  · rintro ⟨other, hother, heq⟩
    have hcontent : directiveStart ++ content ++ directiveEnd =
        directiveStart ++ other ++ directiveEnd := Piece.removed.inj heq
    rw [List.append_left_inj, List.append_right_inj] at hcontent
    rwa [hcontent]
  · intro hcontent
    exact ⟨content, hcontent, rfl⟩

theorem Switches.unique {piece : Piece} {first second : Bool} (hfirst : piece.Switches first)
    (hsecond : piece.Switches second) : first = second := by
  obtain ⟨content, hcontent, rfl⟩ := hfirst
  have hother := switches_directive.mp hsecond
  have hread := (Directive.read_of_switchContent hcontent).symm.trans
    (Directive.read_of_switchContent hother)
  have hword := (Directive.mk.inj (Option.some.inj (Except.ok.inj hread))).1
  revert hword
  cases first <;> cases second <;> decide

theorem not_switches_kept (text : List Char) (enabled : Bool) : ¬Switches (.kept text) enabled := by
  rintro ⟨content, -, heq⟩
  cases heq

/-- Front matter does not start like a directive. -/
theorem not_switches_front {block document rest : List Char}
    (hblock : FencedBlock block document rest) (enabled : Bool) :
    ¬Switches (.removed block) enabled := by
  rintro ⟨content, -, heq⟩
  have hhead := congrArg List.head? (Piece.removed.inj heq)
  cases hblock with
  | @mk blanks opening document closing stop rest hblanks _ _ _ =>
      cases blanks with
      | nil => cases hhead
      | cons char blanks =>
          have hpercent : char = '%' := Option.some.inj hhead
          have hblank := hblanks char (List.mem_cons_self ..)
          rw [hpercent] at hblank
          revert hblank
          decide

end Piece

/-! ### The places of switches

In front of a switch stands in the code what the pieces before it leave there. So its place is
counted up piece by piece; what is taken out counts with its line breaks. -/

/-- The switches of the pieces with their places in the code, which goes on from `offset`. -/
inductive SwitchesAt : Nat → List Piece → List WrapSwitch → Prop
  | nil (offset : Nat) : SwitchesAt offset [] []
  | switch {offset : Nat} {piece : Piece} {pieces : List Piece} {switches : List WrapSwitch}
      {enabled : Bool} :
      piece.Switches enabled → SwitchesAt (offset + byteLength piece.residue) pieces switches →
      SwitchesAt offset (piece :: pieces) ({ offset, enabled } :: switches)
  | other {offset : Nat} {piece : Piece} {pieces : List Piece} {switches : List WrapSwitch} :
      (∀ enabled, ¬piece.Switches enabled) →
      SwitchesAt (offset + byteLength piece.residue) pieces switches →
      SwitchesAt offset (piece :: pieces) switches

theorem NoSwitch.cons {piece : Piece} {pieces : List Piece}
    (hpiece : ∀ enabled, ¬piece.Switches enabled) (hpieces : NoSwitch pieces) :
    NoSwitch (piece :: pieces) :=
  List.forall_mem_cons.mpr ⟨hpiece, hpieces⟩

theorem LastSwitch.cons {pieces : List Piece} {enabled : Bool} (hlast : LastSwitch pieces enabled)
    (piece : Piece) : LastSwitch (piece :: pieces) enabled := by
  obtain ⟨early, last, late, rfl, hswitches, hlate⟩ := hlast
  exact ⟨piece :: early, last, late, rfl, hswitches, hlate⟩

namespace SwitchesAt

variable {offset : Nat} {pieces : List Piece} {switches : List WrapSwitch}

theorem offset_bounds (hswitches : SwitchesAt offset pieces switches) :
    ∀ switch ∈ switches,
      offset ≤ switch.offset ∧ switch.offset ≤ offset + byteLength (residueOf pieces) := by
  induction hswitches with
  | nil => exact nofun
  | @switch offset piece pieces switches enabled _ _ ih =>
      rw [residueOf_cons, byteLength_append]
      refine List.forall_mem_cons.mpr ⟨⟨Nat.le_refl _, Nat.le_add_right _ _⟩, ?_⟩
      intro later hlater
      have hbounds := ih later hlater
      omega
  | other _ _ ih =>
      rw [residueOf_cons, byteLength_append]
      intro later hlater
      have hbounds := ih later hlater
      omega

theorem split {left right : List Piece} (hswitches : SwitchesAt offset (left ++ right) switches) :
    ∃ early late, switches = early ++ late ∧ SwitchesAt offset left early ∧
      SwitchesAt (offset + byteLength (residueOf left)) right late := by
  induction left generalizing offset switches with
  | nil => exact ⟨[], switches, rfl, .nil offset, hswitches⟩
  | cons piece left ih =>
      rw [residueOf_cons, byteLength_append, ← Nat.add_assoc]
      cases hswitches with
      | switch hpiece hrest =>
          obtain ⟨early, late, rfl, hearly, hlate⟩ := ih hrest
          exact ⟨_ :: early, late, rfl, .switch hpiece hearly, hlate⟩
      | other hpiece hrest =>
          obtain ⟨early, late, rfl, hearly, hlate⟩ := ih hrest
          exact ⟨early, late, rfl, .other hpiece hearly, hlate⟩

theorem last (hswitches : SwitchesAt offset pieces switches) :
    (switches = [] ∧ NoSwitch pieces) ∨
      ∃ switch, switches.getLast? = some switch ∧ LastSwitch pieces switch.enabled := by
  induction hswitches with
  | nil => exact .inl ⟨rfl, nofun⟩
  | @switch offset piece pieces switches enabled hpiece _ ih =>
      rcases ih with ⟨rfl, hnone⟩ | ⟨switch, hlast, hswitch⟩
      · exact .inr ⟨⟨offset, enabled⟩, rfl, [], piece, pieces, rfl, hpiece, hnone⟩
      · refine .inr ⟨switch, ?_, hswitch.cons piece⟩
        rw [List.getLast?_cons, hlast]
        rfl
  | @other _ piece _ _ hpiece _ ih =>
      rcases ih with ⟨rfl, hnone⟩ | ⟨switch, hlast, hswitch⟩
      · exact .inl ⟨rfl, hnone.cons hpiece⟩
      · exact .inr ⟨switch, hlast, hswitch.cons piece⟩

end SwitchesAt

namespace Source

theorem effects_cons {offset : Nat} {directive : Directive} {later : List (Nat × Directive)}
    {told : List (Nat × Directive.Effect)}
    (heffects : effects ((offset, directive) :: later) = .ok told) :
    ∃ effect toldLater, directive.effect? = .ok effect ∧ effects later = .ok toldLater ∧
      told = (effect.map fun effect => (offset, effect)).toList ++ toldLater := by
  obtain ⟨all, hall, heffects⟩ := Except.bind_eq_ok.mp heffects
  rw [List.mapM_cons] at hall
  obtain ⟨first, hfirst, hall⟩ := Except.bind_eq_ok.mp hall
  obtain ⟨effect, heffect, hfirst⟩ := Except.bind_eq_ok.mp hfirst
  obtain ⟨rest, hrest, hall⟩ := Except.bind_eq_ok.mp hall
  refine ⟨effect, rest.filterMap id, heffect, Except.bind_eq_ok.mpr ⟨rest, hrest, rfl⟩, ?_⟩
  rw [← Except.ok.inj heffects, ← Except.ok.inj hall, ← Except.ok.inj hfirst]
  cases effect <;> rfl

theorem switchesAt_of_read {offset : Nat} {segments : List Segment} {found : List (Nat × Directive)}
    {told : List (Nat × Directive.Effect)} (hread : readDirectives offset segments = .ok found)
    (heffects : effects found = .ok told) :
    SwitchesAt offset (segments.map Segment.piece) (told.filterMap switchOf) := by
  induction segments generalizing offset found told with
  | nil =>
      obtain rfl := Except.ok.inj hread
      obtain rfl := Except.ok.inj heffects
      exact .nil offset
  | cons segment segments ih =>
      cases segment with
      | plain text => exact .other (Piece.not_switches_kept text) (ih hread heffects)
      | unclosed content => cases hread
      | directive content =>
          have hresidue : (Segment.directive content).piece.residue = lineBreaks content :=
            Segment.lineBreaks_directive content
          obtain ⟨directive, later, hdirective, hlater, rfl⟩ := readDirectives_directive hread
          rw [← hresidue] at hlater
          rw [List.map_cons]
          cases directive with
          | none =>
              refine .other ?_ (ih hlater heffects)
              intro enabled hswitches
              obtain ⟨other, hother, -⟩ :=
                Directive.switchContent_iff.mp (Piece.switches_directive.mp hswitches)
              cases hdirective.symm.trans hother
          | some directive =>
              obtain ⟨effect, toldLater, heffect, htold, rfl⟩ := effects_cons heffects
              have hrest := ih hlater htold
              have hpiece (enabled : Bool) : (Segment.directive content).piece.Switches enabled ↔
                  effect = some (.wrap enabled) := by
                rw [Segment.piece, Piece.switches_directive, Directive.switchContent_iff]
                constructor
                · rintro ⟨other, hother, hwrap⟩
                  obtain rfl := Option.some.inj (Except.ok.inj (hdirective.symm.trans hother))
                  exact Except.ok.inj (heffect.symm.trans hwrap)
                · intro hwrap
                  exact ⟨directive, hdirective, heffect.trans (congrArg Except.ok hwrap)⟩
              rcases effect with _ | ⟨fragment⟩ | ⟨enabled⟩
              · exact .other (fun enabled hswitches => nomatch (hpiece enabled).mp hswitches) hrest
              · exact .other (fun enabled hswitches => nomatch (hpiece enabled).mp hswitches) hrest
              · exact .switch ((hpiece enabled).mpr rfl) hrest

/-- The switches of a source stand where the directives stood that switch wrapping. -/
theorem switchesAt_of_source {source : Source} {text : String} (hread : read text = .ok source) :
    SwitchesAt 0 (piecesOf (unifyLineBreaks text.toList)) source.switches := by
  obtain ⟨frontMatter, body, found, told, hsplit, hdirectives, heffects, -, hswitches, -⟩ :=
    read_eq_ok hread
  have hplaces := switchesAt_of_read hdirectives heffects
  rw [← hswitches] at hplaces
  rcases FrontMatter.split_eq_ok hsplit with ⟨hcut, rfl⟩ |
    ⟨block, document, rest, hcut, hfronted, rfl⟩
  · simp only [piecesOf, hcut]
    exact hplaces
  · obtain ⟨first, others, hrest, hbody⟩ := Segment.split_append_breaks (block.count '\n') rest
    have hpieces : piecesOf (unifyLineBreaks text.toList) =
        .removed block :: (Segment.split rest).map Segment.piece := by
      simp only [piecesOf, hcut]
      rw [hfronted.text_eq, List.length_append, Nat.add_sub_cancel, List.take_left]
    rw [lineBreaks, hbody] at hplaces
    rw [hpieces, hrest]
    generalize source.switches = switches at hplaces ⊢
    cases hplaces with
    | switch hpiece _ => exact absurd hpiece (Piece.not_switches_kept _ _)
    | other _ hothers =>
        refine .other (Piece.not_switches_front hfronted.fenced)
          (.other (Piece.not_switches_kept first) ?_)
        have hoffset : 0 + byteLength (Segment.plain (List.replicate (block.count '\n') '\n' ++
            first)).piece.residue = 0 + byteLength (Piece.removed block).residue +
              byteLength (Segment.plain first).piece.residue := by
          simp only [Segment.piece, Piece.residue, lineBreaks, byteLength_append, Nat.add_assoc]
        rwa [hoffset] at hothers

end Source

/-- What the last of the switches says. -/
def lastEnabled (wrap : Bool) (switches : List WrapSwitch) : Bool :=
  (switches.getLast?.map WrapSwitch.enabled).getD wrap

end SequenceChart
