import SequenceChart.Proofs.Occurrences
import SequenceChart.Source.Basic

/-!
# Pieces of a source text

A source text falls into pieces that are kept and pieces that are taken out: its front matter and
its directives. In the code of the source, a line break stands for each one that was taken out.
-/

namespace SequenceChart

inductive Piece
  | kept (text : List Char)
  | removed (block : List Char)
  deriving DecidableEq, Repr

namespace Piece

/-- The piece in the source text. -/
def origin : Piece → List Char
  | kept text => text
  | removed block => block

/-- What stands for the piece in the code. -/
def residue : Piece → List Char
  | kept text => text
  | removed block => lineBreaks block

end Piece

def originOf (pieces : List Piece) : List Char :=
  pieces.flatMap Piece.origin

def residueOf (pieces : List Piece) : List Char :=
  pieces.flatMap Piece.residue

@[simp]
theorem originOf_cons (piece : Piece) (pieces : List Piece) :
    originOf (piece :: pieces) = piece.origin ++ originOf pieces :=
  List.flatMap_cons

@[simp]
theorem originOf_append (left right : List Piece) :
    originOf (left ++ right) = originOf left ++ originOf right :=
  List.flatMap_append

@[simp]
theorem residueOf_cons (piece : Piece) (pieces : List Piece) :
    residueOf (piece :: pieces) = piece.residue ++ residueOf pieces :=
  List.flatMap_cons

@[simp]
theorem residueOf_append (left right : List Piece) :
    residueOf (left ++ right) = residueOf left ++ residueOf right :=
  List.flatMap_append

def Segment.piece : Segment → Piece
  | .plain text => .kept text
  | .directive content => .removed (directiveStart ++ content ++ directiveEnd)
  | .unclosed content => .kept (directiveStart ++ content)

/-- Front matter and directives are removed from a text, and all else is kept. -/
def piecesOf (text : List Char) : List Piece :=
  match FrontMatter.cut? text with
  | none => (Segment.split text).map Segment.piece
  | some (_, rest) =>
      .removed (text.take (text.length - rest.length)) :: (Segment.split rest).map Segment.piece

/-- The pieces of a text between which directives are taken out. A directive starts at the first
mark behind the one before it and goes on to the first mark that closes it. -/
inductive CutAtDirectives : List Char → List Piece → Prop
  | last {text : List Char} : ¬directiveStart <:+: text → CutAtDirectives text [.kept text]
  | directive {before content rest : List Char} {pieces : List Piece} :
      ¬directiveStart <:+: before ++ directiveStart.dropLast →
      ¬directiveEnd <:+: content ++ directiveEnd.dropLast → CutAtDirectives rest pieces →
      CutAtDirectives (before ++ (directiveStart ++ content ++ directiveEnd) ++ rest)
        (.kept before :: .removed (directiveStart ++ content ++ directiveEnd) :: pieces)

def fence : List Char := ['-', '-', '-']

/-- Front matter and what follows it: a document between two lines of hyphens. -/
inductive FencedBlock : List Char → List Char → List Char → Prop
  | mk {blanks opening document closing stop rest : List Char} :
      (∀ char ∈ blanks, isBlank char = true) →
      (∀ char ∈ opening, FrontMatter.isIndent char = true) →
      (∀ char ∈ closing, FrontMatter.isIndent char = true) →
      (stop = ['\n'] ∨ stop = [] ∧ rest = []) →
      FencedBlock (blanks ++ fence ++ opening ++ ['\n'] ++ document ++ ['\n'] ++ fence ++ closing ++
        stop) document rest

/-- No front matter starts the text. -/
def Unfronted (text : List Char) : Prop :=
  ∀ block document rest, text = block ++ rest → ¬FencedBlock block document rest

/-- The text starts with front matter, which goes on to the first line that closes it. -/
structure Fronted (text block document rest : List Char) : Prop where
  text_eq : text = block ++ rest
  fenced : FencedBlock block document rest
  shortest : ∀ other longer behind, text = other ++ behind → FencedBlock other longer behind →
    document.length ≤ longer.length

/-- The pieces of a text from which front matter and directives are taken out. -/
inductive CutIntoPieces (text : List Char) : List Piece → Prop
  | plain {pieces : List Piece} :
      Unfronted text → CutAtDirectives text pieces → CutIntoPieces text pieces
  | fronted {block document rest : List Char} {pieces : List Piece} :
      Fronted text block document rest → CutAtDirectives rest pieces →
      CutIntoPieces text (.removed block :: pieces)

variable {text rest document : List Char}

/-! ### Front matter

A cut is a fenced block, and where a fenced block starts the text there is a cut that is no longer.
So a text that is not cut has no front matter, and what is cut off is the shortest. -/

namespace FrontMatter

theorem afterOpening?_eq_some (hopening : afterOpening? text = some rest) :
    ∃ blanks opening, text = blanks ++ fence ++ opening ++ ['\n'] ++ rest ∧
      (∀ char ∈ blanks, isBlank char = true) ∧ ∀ char ∈ opening, isIndent char = true := by
  unfold afterOpening? at hopening
  split at hopening
  · rename_i line hblanks
    split at hopening
    · rename_i body hline
      obtain rfl := Option.some.inj hopening
      refine ⟨text.takeWhile isBlank, line.takeWhile isIndent, ?_,
        List.all_eq_true.mp List.all_takeWhile, List.all_eq_true.mp List.all_takeWhile⟩
      calc
        text = text.takeWhile isBlank ++ dropBlanks text := List.takeWhile_append_dropWhile.symm
        _ = text.takeWhile isBlank ++ (fence ++ line) := by rw [hblanks]; rfl
        _ = text.takeWhile isBlank ++ (fence ++ (line.takeWhile isIndent ++ '\n' :: body)) := by
          rw [← hline, List.takeWhile_append_dropWhile]
        _ = text.takeWhile isBlank ++ fence ++ line.takeWhile isIndent ++ ['\n'] ++ body := by
          simp only [List.append_assoc, List.singleton_append]
    · cases hopening
  · cases hopening

theorem afterClosing?_eq_some (hclosing : afterClosing? text = some rest) :
    ∃ closing stop, text = ['\n'] ++ fence ++ closing ++ stop ++ rest ∧
      (∀ char ∈ closing, isIndent char = true) ∧ (stop = ['\n'] ∨ stop = [] ∧ rest = []) := by
  unfold afterClosing? at hclosing
  split at hclosing
  · rename_i line
    have hindent : line = line.takeWhile isIndent ++ line.dropWhile isIndent :=
      List.takeWhile_append_dropWhile.symm
    split at hclosing
    · rename_i hline
      obtain rfl := Option.some.inj hclosing
      rw [hline, List.append_nil] at hindent
      refine ⟨line, [], by simp [fence], ?_, .inr ⟨rfl, rfl⟩⟩
      rw [hindent]
      exact List.all_eq_true.mp List.all_takeWhile
    · rename_i after hline
      obtain rfl := Option.some.inj hclosing
      rw [hline] at hindent
      refine ⟨line.takeWhile isIndent, ['\n'], ?_, List.all_eq_true.mp List.all_takeWhile, .inl rfl⟩
      simp only [List.append_assoc, List.singleton_append]
      rw [← hindent]
      rfl
    · cases hclosing
  · cases hclosing

theorem cutClosing?_eq_some (hcut : cutClosing? text = some (document, rest)) :
    ∃ closing, text = document ++ closing ∧ afterClosing? closing = some rest := by
  induction text generalizing document with
  | nil => cases hcut
  | cons char text ih =>
      rw [cutClosing?] at hcut
      split at hcut
      · rename_i after hclosing
        obtain ⟨rfl, rfl⟩ := Prod.mk.inj (Option.some.inj hcut)
        exact ⟨char :: text, rfl, hclosing⟩
      · obtain ⟨⟨first, last⟩, hfound, heq⟩ := Option.map_eq_some_iff.mp hcut
        obtain ⟨rfl, rfl⟩ := Prod.mk.inj heq
        obtain ⟨closing, rfl, hclosing⟩ := ih hfound
        exact ⟨closing, rfl, hclosing⟩

theorem cut?_eq_some (hcut : cut? text = some (document, rest)) :
    ∃ block, text = block ++ rest ∧ FencedBlock block document rest := by
  obtain ⟨body, hbody, hcutBody⟩ := Option.bind_eq_some_iff.mp hcut
  obtain ⟨blanks, opening, rfl, hblanks, hopening⟩ := afterOpening?_eq_some hbody
  obtain ⟨closed, rfl, hclosed⟩ := cutClosing?_eq_some hcutBody
  obtain ⟨closing, stop, rfl, hclosing, hstop⟩ := afterClosing?_eq_some hclosed
  exact ⟨_, by simp only [List.append_assoc], .mk hblanks hopening hclosing hstop⟩

theorem dropWhile_isIndent_append {indent : List Char}
    (hindent : ∀ char ∈ indent, isIndent char = true) {rest : List Char}
    (hrest : rest = [] ∨ rest.head? = some '\n') :
    (indent ++ rest).dropWhile isIndent = rest := by
  rw [List.dropWhile_append_of_pos hindent]
  rcases hrest with rfl | hhead
  · rfl
  · obtain ⟨more, rfl⟩ := List.head?_eq_some_iff.mp hhead
    exact List.dropWhile_cons_of_neg (by decide)

theorem afterOpening?_fence {blanks opening body : List Char}
    (hblanks : ∀ char ∈ blanks, isBlank char = true)
    (hopening : ∀ char ∈ opening, isIndent char = true) :
    afterOpening? (blanks ++ fence ++ opening ++ ['\n'] ++ body) = some body := by
  have hstart : dropBlanks (blanks ++ fence ++ opening ++ ['\n'] ++ body) =
      '-' :: '-' :: '-' :: (opening ++ '\n' :: body) := by
    simp only [List.append_assoc, List.singleton_append]
    exact List.dropWhile_append_of_pos hblanks
  have hline : (opening ++ '\n' :: body).dropWhile isIndent = '\n' :: body :=
    dropWhile_isIndent_append hopening (.inr rfl)
  simp only [afterOpening?, hstart, hline]

theorem afterClosing?_fence {closing stop behind : List Char}
    (hclosing : ∀ char ∈ closing, isIndent char = true)
    (hstop : stop = ['\n'] ∨ stop = [] ∧ behind = []) :
    afterClosing? (['\n'] ++ fence ++ closing ++ stop ++ behind) = some behind := by
  have hline : (closing ++ (stop ++ behind)).dropWhile isIndent = stop ++ behind := by
    apply dropWhile_isIndent_append hclosing
    rcases hstop with rfl | ⟨rfl, rfl⟩
    · exact .inr rfl
    · exact .inl rfl
  simp only [afterClosing?, fence, List.append_assoc, List.cons_append, List.nil_append, hline]
  rcases hstop with rfl | ⟨rfl, rfl⟩ <;> rfl

/-- A document ends no later than at any line that closes it. -/
theorem exists_cutClosing? {closed behind : List Char}
    (hclosed : afterClosing? closed = some behind) (longer : List Char) :
    ∃ document rest, cutClosing? (longer ++ closed) = some (document, rest) ∧
      document.length ≤ longer.length := by
  induction longer with
  | nil =>
      cases closed with
      | nil => cases hclosed
      | cons char closed => exact ⟨[], behind, by simp [cutClosing?, hclosed], Nat.le_refl _⟩
  | cons char longer ih =>
      cases hclosing : afterClosing? (char :: (longer ++ closed)) with
      | some after => exact ⟨[], after, by simp [cutClosing?, hclosing], Nat.zero_le _⟩
      | none =>
          obtain ⟨document, rest, hcut, hle⟩ := ih
          refine ⟨char :: document, rest, ?_, by simpa using hle⟩
          simp [cutClosing?, hclosing, hcut]

theorem exists_cut?_of_fenced {block longer behind : List Char}
    (hblock : FencedBlock block longer behind) :
    ∃ document rest, cut? (block ++ behind) = some (document, rest) ∧
      document.length ≤ longer.length := by
  cases hblock with
  | @mk blanks opening longer closing stop behind hblanks hopening hclosing hstop =>
      obtain ⟨document, rest, hcut, hle⟩ :=
        exists_cutClosing? (afterClosing?_fence hclosing hstop) longer
      refine ⟨document, rest, ?_, hle⟩
      have hopened := @afterOpening?_fence blanks opening
        (longer ++ (['\n'] ++ fence ++ closing ++ stop ++ behind)) hblanks hopening
      rw [← hcut, cut?]
      simp only [List.append_assoc] at hopened ⊢
      rw [hopened, Option.bind_some]

theorem unfronted_of_cut? (hcut : cut? text = none) : Unfronted text := by
  rintro block document rest rfl hblock
  obtain ⟨document, rest, hfound, -⟩ := exists_cut?_of_fenced hblock
  cases hcut.symm.trans hfound

theorem fronted_of_cut? (hcut : cut? text = some (document, rest)) :
    ∃ block, Fronted text block document rest := by
  obtain ⟨block, htext, hblock⟩ := cut?_eq_some hcut
  refine ⟨block, htext, hblock, ?_⟩
  intro other longer behind hother hlonger
  obtain ⟨first, last, hfound, hle⟩ := exists_cut?_of_fenced hlonger
  rw [← hother, hcut] at hfound
  obtain ⟨rfl, rfl⟩ := Prod.mk.inj (Option.some.inj hfound)
  exact hle

theorem split_eq_ok {frontMatter : FrontMatter} {body : List Char}
    (hsplit : split text = .ok (frontMatter, body)) :
    (cut? text = none ∧ body = text) ∨
      ∃ block document rest, cut? text = some (document, rest) ∧
        Fronted text block document rest ∧ body = lineBreaks block ++ rest := by
  unfold split at hsplit
  split at hsplit
  · rename_i hcut
    exact .inl ⟨hcut, (Prod.mk.inj (Except.ok.inj hsplit)).2.symm⟩
  · rename_i document rest hcut
    obtain ⟨block, hfronted⟩ := fronted_of_cut? hcut
    obtain rfl := hfronted.text_eq
    have hremoved : (block ++ rest).take ((block ++ rest).length - rest.length) = block := by
      rw [List.length_append, Nat.add_sub_cancel, List.take_left]
    obtain ⟨found, -, hsplit⟩ := Except.bind_eq_ok.mp hsplit
    rw [hremoved] at hsplit
    exact .inr ⟨block, document, rest, hcut, hfronted,
      (Prod.mk.inj (Except.ok.inj hsplit)).2.symm⟩

end FrontMatter

namespace Segment

theorem split_of_none (hstart : cutAt? directiveStart text = none) : split text = [plain text] := by
  rw [split]
  split
  · rfl
  · rename_i hsome
    cases hsome.symm.trans hstart

theorem split_of_unclosed {before inside : List Char}
    (hstart : cutAt? directiveStart text = some (before, inside))
    (hend : cutAt? directiveEnd inside = none) : split text = [plain before, unclosed inside] := by
  rw [split]
  split
  · rename_i hnone
    cases hnone.symm.trans hstart
  · rename_i hsome
    obtain ⟨rfl, rfl⟩ := Prod.mk.inj (Option.some.inj (hsome.symm.trans hstart))
    split
    · rfl
    · rename_i hclosed
      cases hclosed.symm.trans hend

theorem split_of_closed {before inside content : List Char}
    (hstart : cutAt? directiveStart text = some (before, inside))
    (hend : cutAt? directiveEnd inside = some (content, rest)) :
    split text = plain before :: directive content :: split rest := by
  rw [split]
  split
  · rename_i hnone
    cases hnone.symm.trans hstart
  · rename_i hsome
    obtain ⟨rfl, rfl⟩ := Prod.mk.inj (Option.some.inj (hsome.symm.trans hstart))
    split
    · rename_i hunclosed
      cases hunclosed.symm.trans hend
    · rename_i hclosed
      obtain ⟨rfl, rfl⟩ := Prod.mk.inj (Option.some.inj (hclosed.symm.trans hend))
      rfl

/-- Line breaks before a text stay before its first directive. -/
theorem cutAt?_append_breaks (count : Nat) (text : List Char) :
    cutAt? directiveStart (List.replicate count '\n' ++ text) =
      (cutAt? directiveStart text).map fun (before, after) =>
        (List.replicate count '\n' ++ before, after) := by
  induction count with
  | zero => simp
  | succ count ih =>
      have hstarts : directiveStart.isPrefixOf ('\n' :: (List.replicate count '\n' ++ text)) =
          false := rfl
      rw [List.replicate_succ, List.cons_append, cutAt?, hstarts, if_neg Bool.false_ne_true, ih,
        Option.map_map]
      rfl

theorem split_append_breaks (count : Nat) (text : List Char) :
    ∃ first others, split text = plain first :: others ∧
      split (List.replicate count '\n' ++ text) =
        plain (List.replicate count '\n' ++ first) :: others := by
  have hbreaks := cutAt?_append_breaks count text
  cases hstart : cutAt? directiveStart text with
  | none =>
      rw [hstart] at hbreaks
      exact ⟨text, [], split_of_none hstart, split_of_none hbreaks⟩
  | some found =>
      obtain ⟨before, inside⟩ := found
      rw [hstart] at hbreaks
      cases hend : cutAt? directiveEnd inside with
      | none => exact ⟨before, _, split_of_unclosed hstart hend, split_of_unclosed hbreaks hend⟩
      | some closed => exact ⟨before, _, split_of_closed hstart hend, split_of_closed hbreaks hend⟩

theorem lineBreaks_directive (content : List Char) :
    lineBreaks (directiveStart ++ content ++ directiveEnd) = lineBreaks content := by
  simp [lineBreaks, directiveStart, directiveEnd]

theorem cutAtDirectives_of_split (hclosed : ∀ content, unclosed content ∉ split text) :
    CutAtDirectives text ((split text).map piece) := by
  fun_induction split text with
  | case1 text hstart =>
      exact .last (not_infix_of_cutAt?_eq_none (List.cons_ne_nil _ _) hstart)
  | case2 text before inside hstart hend => simp at hclosed
  | case3 text before inside hstart content rest hend ih =>
      have hrest : ∀ content, unclosed content ∉ split rest := by
        intro other hmem
        exact hclosed other (List.mem_cons_of_mem _ (List.mem_cons_of_mem _ hmem))
      have htext : text = before ++ (directiveStart ++ content ++ directiveEnd) ++ rest := by
        rw [eq_of_cutAt?_eq_some hstart, eq_of_cutAt?_eq_some hend]
        simp only [List.append_assoc]
      have hbefore := not_infix_of_cutAt? (List.cons_ne_nil _ _) hstart
      have hcontent := not_infix_of_cutAt? (List.cons_ne_nil _ _) hend
      rw [htext]
      exact .directive hbefore hcontent (ih hrest)

theorem residueOf_map_piece {segments : List Segment}
    (hclosed : ∀ content, unclosed content ∉ segments) :
    residueOf (segments.map piece) = codeOf segments := by
  induction segments with
  | nil => rfl
  | cons segment segments ih =>
      have hrest : ∀ content, unclosed content ∉ segments := by
        intro content hmem
        exact hclosed content (List.mem_cons_of_mem _ hmem)
      have hsegment : segment.piece.residue = segment.residue := by
        cases segment with
        | plain text => rfl
        | directive content => exact lineBreaks_directive content
        | unclosed content => exact absurd (List.mem_cons_self ..) (hclosed content)
      rw [List.map_cons, residueOf_cons, hsegment, ih hrest]
      rfl

end Segment

theorem CutAtDirectives.originOf {pieces : List Piece} (hcut : CutAtDirectives text pieces) :
    originOf pieces = text := by
  induction hcut with
  | last hnone => exact List.append_nil _
  | directive hbefore hcontent hrest ih =>
      simp only [originOf_cons, Piece.origin, ih, List.append_assoc]

theorem CutIntoPieces.originOf {pieces : List Piece} (hcut : CutIntoPieces text pieces) :
    originOf pieces = text := by
  cases hcut with
  | plain hnone hcut => exact hcut.originOf
  | fronted hfronted hcut => rw [originOf_cons, hcut.originOf, hfronted.text_eq, Piece.origin]

namespace Source

theorem readDirectives_directive {offset : Nat} {content : List Char} {segments : List Segment}
    {found : List (Nat × Directive)}
    (hread : readDirectives offset (.directive content :: segments) = .ok found) :
    ∃ directive later, Directive.read content = .ok directive ∧
      readDirectives (offset + byteLength (lineBreaks content)) segments = .ok later ∧
      found = (directive.map fun directive => (offset, directive)).toList ++ later := by
  obtain ⟨directive, hdirective, hread⟩ := Except.bind_eq_ok.mp hread
  obtain ⟨later, hlater, hread⟩ := Except.bind_eq_ok.mp hread
  exact ⟨directive, later, hdirective, hlater, (Except.ok.inj hread).symm⟩

theorem closed_of_readDirectives {offset : Nat} {segments : List Segment}
    {found : List (Nat × Directive)} (hread : readDirectives offset segments = .ok found)
    (content : List Char) : .unclosed content ∉ segments := by
  induction segments generalizing offset found with
  | nil => exact List.not_mem_nil
  | cons segment segments ih =>
      cases segment with
      | plain text =>
          rw [readDirectives] at hread
          simpa using ih hread
      | unclosed content => cases hread
      | directive inside =>
          obtain ⟨directive, later, -, hlater, -⟩ := readDirectives_directive hread
          simpa using ih hlater

theorem read_eq_ok {source : Source} {text : String} (hread : read text = .ok source) :
    ∃ frontMatter body found told, FrontMatter.split (unifyLineBreaks text.toList) =
        .ok (frontMatter, body) ∧ readDirectives 0 (Segment.split body) = .ok found ∧
      effects found = .ok told ∧ source.code = String.ofList (codeOf (Segment.split body)) ∧
      source.switches = told.filterMap switchOf ∧
      source.fragments =
        (frontMatter.config.map fun entries => { kind := .init, entries }).toList ++
          told.filterMap fragmentOf := by
  obtain ⟨⟨frontMatter, body⟩, hsplit, hread⟩ := Except.bind_eq_ok.mp hread
  obtain ⟨found, hdirectives, hread⟩ := Except.bind_eq_ok.mp hread
  obtain ⟨told, heffects, hread⟩ := Except.bind_eq_ok.mp hread
  cases hread
  exact ⟨frontMatter, body, found, told, hsplit, hdirectives, heffects, rfl, rfl, rfl⟩

/-- The code of a source is its text, but for the line breaks that stand for what is removed. -/
theorem code_eq_residueOf {source : Source} {text : String} (hread : read text = .ok source) :
    CutIntoPieces (unifyLineBreaks text.toList) (piecesOf (unifyLineBreaks text.toList)) ∧
      source.code.toList = residueOf (piecesOf (unifyLineBreaks text.toList)) := by
  obtain ⟨frontMatter, body, found, told, hsplit, hdirectives, -, hcode, -⟩ := read_eq_ok hread
  have hclosed := closed_of_readDirectives hdirectives
  rw [hcode, String.toList_ofList]
  rcases FrontMatter.split_eq_ok hsplit with ⟨hcut, rfl⟩ |
    ⟨block, document, rest, hcut, hfronted, rfl⟩
  · simp only [piecesOf, hcut]
    exact ⟨.plain (FrontMatter.unfronted_of_cut? hcut) (Segment.cutAtDirectives_of_split hclosed),
      (Segment.residueOf_map_piece hclosed).symm⟩
  · obtain ⟨first, others, hrest, hbody⟩ := Segment.split_append_breaks (block.count '\n') rest
    rw [lineBreaks, hbody] at hclosed ⊢
    have hclosedRest : ∀ content, .unclosed content ∉ Segment.split rest := by
      intro content
      have := hclosed content
      rw [hrest]
      simpa using this
    have hpieces : piecesOf (unifyLineBreaks text.toList) =
        .removed block :: (Segment.split rest).map Segment.piece := by
      simp only [piecesOf, hcut]
      rw [hfronted.text_eq, List.length_append, Nat.add_sub_cancel, List.take_left]
    rw [hpieces]
    refine ⟨.fronted hfronted (Segment.cutAtDirectives_of_split hclosedRest), ?_⟩
    rw [residueOf_cons, Segment.residueOf_map_piece hclosedRest, hrest, Piece.residue, lineBreaks]
    simp only [codeOf, List.flatMap_cons, Segment.residue, List.append_assoc]

end Source

end SequenceChart
