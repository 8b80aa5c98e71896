/-!
# Searching texts

Comparison of texts that disregards the case of the ASCII letters, runs of characters that end
where a condition on the remaining text holds, and cuts at the first occurrence of a mark.
-/

namespace SequenceChart

/-- What follows `word` at the start of a text; upper and lower ASCII letters count as equal. -/
def dropWord? : List Char → List Char → Option (List Char)
  | [], text => some text
  | _ :: _, [] => none
  | letter :: word, char :: text =>
      if letter.toLower = char.toLower then dropWord? word text else none

/-- The characters before the first place where `stops` holds of the remaining text. -/
def takeUntil (stops : List Char → Bool) : List Char → List Char
  | [] => []
  | char :: rest => if stops (char :: rest) then [] else char :: takeUntil stops rest

/-- The text before and after the first occurrence of `mark`. -/
def cutAt? (mark : List Char) : List Char → Option (List Char × List Char)
  | [] => if mark.isEmpty then some ([], []) else none
  | char :: rest =>
      if mark.isPrefixOf (char :: rest) then some ([], (char :: rest).drop mark.length)
      else (cutAt? mark rest).map fun (before, after) => (char :: before, after)

def occursIn (mark text : List Char) : Bool :=
  (cutAt? mark text).isSome

theorem dropWord?_length {word text rest : List Char} (hdrop : dropWord? word text = some rest) :
    word.length + rest.length = text.length := by
  induction word generalizing text with
  | nil =>
      simp only [dropWord?, Option.some.injEq] at hdrop
      simp [hdrop]
  | cons letter word ih =>
      cases text with
      | nil => simp [dropWord?] at hdrop
      | cons char text =>
          simp only [dropWord?] at hdrop
          split at hdrop
          · have := ih hdrop
            simp only [List.length_cons]
            omega
          · simp at hdrop

theorem eq_of_cutAt?_eq_some {mark text before after : List Char}
    (hcut : cutAt? mark text = some (before, after)) : text = before ++ mark ++ after := by
  induction text generalizing before with
  | nil =>
      simp only [cutAt?] at hcut
      split at hcut
      · rename_i hmark
        simp_all
      · simp at hcut
  | cons char rest ih =>
      simp only [cutAt?] at hcut
      split at hcut
      · rename_i hprefix
        obtain ⟨tail, htail⟩ := List.isPrefixOf_iff_prefix.mp hprefix
        simp only [Option.some.injEq, Prod.mk.injEq] at hcut
        rw [← hcut.1, ← hcut.2, ← htail]
        simp
      · obtain ⟨⟨first, last⟩, hrest, heq⟩ := Option.map_eq_some_iff.mp hcut
        simp only [Prod.mk.injEq] at heq
        rw [heq.2] at hrest
        rw [ih hrest, ← heq.1]
        rfl

end SequenceChart
