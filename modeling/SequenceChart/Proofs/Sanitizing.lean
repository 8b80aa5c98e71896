import Mathlib.Data.List.Forall2
import Mathlib.Data.List.Nodup
import SequenceChart.Proofs.Occurrences
import SequenceChart.Proofs.Parts
import SequenceChart.Proofs.Switches

/-!
# What a source must not set

Sanitizing a value takes out the reserved keys and empties the blocked texts, at every depth, and
does nothing else: under each key that stays is the sanitized value, and the keys keep their order
unless `secure` was among them. So a value in which nothing is reserved or blocked stays as it is.
All fragments of a source are sanitized.
-/

namespace SequenceChart

namespace Json

def IsReservedKey (key : String) : Prop :=
  key = "secure" ∨ "__".toList <+: key.toList

def IsBlocked (text : String) : Prop :=
  '<' ∈ text.toList ∨ '>' ∈ text.toList ∨ "url(data:".toList <:+: text.toList

/-- The value is no object with a reserved key, and no blocked text. -/
def Permitted : Json → Prop
  | object entries => ∀ key ∈ Entries.keys entries, ¬IsReservedKey key
  | string text => ¬IsBlocked text
  | _ => True

theorem occursIn_iff {mark text : List Char} (hmark : mark ≠ []) :
    occursIn mark text = true ↔ mark <:+: text := by
  unfold occursIn
  constructor
  · intro hcut
    obtain ⟨⟨before, after⟩, hcut⟩ := Option.isSome_iff_exists.mp hcut
    exact ⟨before, after, (eq_of_cutAt?_eq_some hcut).symm⟩
  · intro hinfix
    cases hcut : cutAt? mark text with
    | none => exact absurd hinfix (not_infix_of_cutAt?_eq_none hmark hcut)
    | some found => rfl

theorem isBlockedText_iff {text : String} : isBlockedText text = true ↔ IsBlocked text := by
  have hdata : occursIn "url(data:".toList text.toList = true ↔
      "url(data:".toList <:+: text.toList := occursIn_iff (by decide)
  simp only [isBlockedText, IsBlocked, Bool.or_eq_true, List.contains_iff_mem, hdata, or_assoc]

theorem isPrivateKey_iff {key : String} : isPrivateKey key = true ↔ "__".toList <+: key.toList :=
  List.isPrefixOf_iff_prefix

instance : DecidablePred IsReservedKey := fun key =>
  decidable_of_iff (key = "secure" ∨ isPrivateKey key = true) (or_congr_right isPrivateKey_iff)

instance : DecidablePred IsBlocked := fun _ =>
  decidable_of_iff _ isBlockedText_iff

/-- What becomes of a value without its reserved keys and the contents of its blocked texts. -/
inductive SanitizesTo : Json → Json → Prop
  | null : SanitizesTo null null
  | bool (value : Bool) : SanitizesTo (bool value) (bool value)
  | number (value : Number) : SanitizesTo (number value) (number value)
  | plain {text : String} : ¬IsBlocked text → SanitizesTo (string text) (string text)
  | blocked {text : String} : IsBlocked text → SanitizesTo (string text) (string "")
  | array {elements left : List Json} :
      List.Forall₂ SanitizesTo elements left → SanitizesTo (array elements) (array left)
  | object {entries left : Entries} :
      left.keys.Perm (entries.keys.filter fun key => ¬IsReservedKey key) →
      ("secure" ∉ entries.keys →
        left.keys = entries.keys.filter fun key => ¬IsReservedKey key) →
      (∀ key before after, entries.find? key = some before → left.find? key = some after →
        SanitizesTo before after) →
      SanitizesTo (object entries) (object left)

theorem sanitizeElements_eq_map (elements : List Json) :
    sanitizeElements elements = elements.map sanitize := by
  induction elements with
  | nil => rfl
  | cons element rest ih => rw [sanitizeElements, ih, List.map_cons]

theorem sanitizeEntries_eq_map (entries : Entries) :
    sanitizeEntries entries = entries.map fun entry => (entry.1, entry.2.sanitize) := by
  induction entries with
  | nil => rfl
  | cons entry rest ih => rw [sanitizeEntries, ih, List.map_cons]

theorem keys_sanitizeEntries (entries : Entries) :
    Entries.keys (sanitizeEntries entries) = entries.keys := by
  rw [sanitizeEntries_eq_map, Entries.keys, List.map_map]
  rfl

end Json

namespace Entries

variable {entries : Entries} {entry : String × Json}

/-! ### Dropping entries

Private keys are filtered out where they stand, but where `secure` is dropped, the last entry takes
its place. So the order of what stays can change, but not what stays. -/

theorem swapRemove_of_notMem {key : String} (hkey : key ∉ entries.keys) :
    entries.swapRemove key = entries := by
  induction entries with
  | nil => rfl
  | cons first rest ih =>
      rw [keys_cons, List.mem_cons, not_or] at hkey
      rw [swapRemove, if_neg (Ne.symm hkey.1), ih hkey.2]

/-- An entry that comes last is dropped alone; before others, it gives its place to the last one. -/
theorem swapRemove_append_cons {before : Entries} {key : String} (hkey : key ∉ before.keys)
    (value : Json) (after : Entries) : (before ++ (key, value) :: after).swapRemove key =
      before ++ (after.getLast?.toList ++ after.dropLast) := by
  induction before with
  | nil =>
      rw [List.nil_append, swapRemove, if_pos rfl, List.nil_append]
      cases hlast : after.getLast? with
      | none =>
          rw [List.getLast?_eq_none_iff.mp hlast]
          rfl
      | some last => rfl
  | cons first rest ih =>
      rw [keys_cons, List.mem_cons, not_or] at hkey
      rw [List.cons_append, swapRemove, if_neg (Ne.symm hkey.1), ih hkey.2]
      rfl

/-- Where the key stands, if the keys are distinct. -/
theorem exists_append_cons_of_mem {key : String} (hnodup : entries.keys.Nodup)
    (hkey : key ∈ entries.keys) : ∃ before value after, entries = before ++ (key, value) :: after ∧
      key ∉ keys before ∧ key ∉ keys after := by
  obtain ⟨⟨found, value⟩, hmem, rfl⟩ := List.mem_map.mp hkey
  obtain ⟨before, after, rfl⟩ := List.append_of_mem hmem
  refine ⟨before, value, after, rfl, ?_⟩
  rw [keys, List.map_append, List.map_cons, List.nodup_append, List.nodup_cons] at hnodup
  exact ⟨fun hbefore => hnodup.2.2 found hbefore found List.mem_cons_self rfl, hnodup.2.1.1⟩

theorem filter_ne_of_notMem {key : String} (hkey : key ∉ entries.keys) :
    entries.filter (fun entry => entry.1 ≠ key) = entries := by
  rw [List.filter_eq_self]
  rintro entry hmem
  simp only [ne_eq, decide_not, Bool.not_eq_eq_eq_not, Bool.not_true, decide_eq_false_iff_not]
  rintro rfl
  exact hkey (List.mem_map_of_mem hmem)

theorem swapRemove_perm (hnodup : entries.keys.Nodup) (key : String) :
    (entries.swapRemove key).Perm (entries.filter fun entry => entry.1 ≠ key) := by
  by_cases hkey : key ∈ entries.keys
  · obtain ⟨before, value, after, rfl, hbefore, hafter⟩ := exists_append_cons_of_mem hnodup hkey
    have hmoved : (after.getLast?.toList ++ after.dropLast).Perm after := by
      rcases List.eq_nil_or_concat after with rfl | ⟨rest, last, rfl⟩
      · exact .refl _
      · simpa using (List.perm_append_singleton last rest).symm
    rw [swapRemove_append_cons hbefore, List.filter_append, List.filter_cons_of_neg (by simp),
      filter_ne_of_notMem hbefore, filter_ne_of_notMem hafter]
    exact hmoved.append_left before
  · rw [swapRemove_of_notMem hkey, filter_ne_of_notMem hkey]

theorem keys_filter (holds : String → Bool) (entries : Entries) :
    keys (entries.filter fun entry => holds entry.1) = entries.keys.filter holds :=
  List.filter_map.symm

theorem eq_of_mem_of_mem (hnodup : entries.keys.Nodup) {key : String} {value other : Json}
    (hvalue : (key, value) ∈ entries) (hother : (key, other) ∈ entries) : value = other :=
  congrArg Prod.snd (List.inj_on_of_nodup_map hnodup hvalue hother rfl)

theorem not_isReservedKey_iff {key : String} :
    ¬Json.IsReservedKey key ↔ key ≠ "secure" ∧ Json.isPrivateKey key = false := by
  rw [Json.IsReservedKey, not_or, ← Json.isPrivateKey_iff, Bool.not_eq_true]

theorem filter_not_isReservedKey (entries : Entries) :
    entries.filter (fun entry => ¬Json.IsReservedKey entry.1) =
      (entries.filter fun entry => entry.1 ≠ "secure").filter
        fun entry => !Json.isPrivateKey entry.1 := by
  rw [List.filter_filter]
  refine List.filter_congr fun entry _ => ?_
  simp only [not_isReservedKey_iff, Bool.decide_and, Bool.and_comm, Bool.decide_eq_false]

theorem dropReserved_perm (hnodup : entries.keys.Nodup) :
    entries.dropReserved.Perm (entries.filter fun entry => ¬Json.IsReservedKey entry.1) := by
  rw [filter_not_isReservedKey]
  exact (swapRemove_perm hnodup "secure").filter _

theorem dropReserved_of_notMem (hsecure : "secure" ∉ entries.keys) :
    entries.dropReserved = entries.filter fun entry => ¬Json.IsReservedKey entry.1 := by
  rw [filter_not_isReservedKey, dropReserved, swapRemove_of_notMem hsecure,
    filter_ne_of_notMem hsecure]

theorem mem_dropReserved (hnodup : entries.keys.Nodup) :
    entry ∈ entries.dropReserved ↔ entry ∈ entries ∧ ¬Json.IsReservedKey entry.1 := by
  rw [(dropReserved_perm hnodup).mem_iff, List.mem_filter, decide_eq_true_eq]

theorem mem_sanitize (hnodup : entries.keys.Nodup) : entry ∈ entries.sanitize ↔
    ∃ original ∈ entries, ¬Json.IsReservedKey entry.1 ∧
      entry = (original.1, original.2.sanitize) := by
  rw [sanitize, mem_dropReserved (by rwa [Json.keys_sanitizeEntries]), Json.sanitizeEntries_eq_map,
    List.mem_map]
  constructor
  · rintro ⟨⟨original, hmem, rfl⟩, hkey⟩
    exact ⟨original, hmem, hkey, rfl⟩
  · rintro ⟨original, hmem, hkey, rfl⟩
    exact ⟨⟨original, hmem, rfl⟩, hkey⟩

theorem keys_sanitize_perm (hnodup : entries.keys.Nodup) :
    entries.sanitize.keys.Perm (entries.keys.filter fun key => ¬Json.IsReservedKey key) := by
  have hsanitized : (keys (Json.sanitizeEntries entries)).Nodup := by
    rwa [Json.keys_sanitizeEntries]
  rw [← Json.keys_sanitizeEntries entries, ← keys_filter]
  exact (dropReserved_perm hsanitized).map Prod.fst

theorem keys_sanitize_of_notMem (hsecure : "secure" ∉ entries.keys) :
    entries.sanitize.keys = entries.keys.filter fun key => ¬Json.IsReservedKey key := by
  rw [← Json.keys_sanitizeEntries] at hsecure
  rw [sanitize, dropReserved_of_notMem hsecure,
    keys_filter fun key => ¬Json.IsReservedKey key, Json.keys_sanitizeEntries]

end Entries

namespace Json

variable {value : Json}

theorem sanitizesTo_sanitize (hdistinct : value.Everywhere HasDistinctKeys) :
    SanitizesTo value value.sanitize := by
  induction value using parts_induction with
  | scalar value hscalar =>
      cases hscalar with
      | null => exact .null
      | bool value => exact .bool value
      | number value => exact .number value
      | string text =>
          rw [sanitize]
          split
          · exact .blocked (isBlockedText_iff.mp ‹_›)
          · exact .plain (mt isBlockedText_iff.mpr ‹_›)
  | array elements ih =>
      rw [sanitize, sanitizeElements_eq_map]
      refine .array (List.forall₂_map_right_iff.mpr (List.forall₂_same.mpr fun element hmem => ?_))
      exact ih element hmem ((everywhere_array_iff.mp hdistinct).2 element hmem)
  | object entries ih =>
      obtain ⟨hnodup, hinside⟩ := everywhere_object_iff.mp hdistinct
      change SanitizesTo (object entries) (object (Entries.sanitize entries))
      refine .object (Entries.keys_sanitize_perm hnodup) Entries.keys_sanitize_of_notMem
        fun key before after hbefore hafter => ?_
      obtain ⟨⟨found, original⟩, hmem, -, heq⟩ :=
        (Entries.mem_sanitize hnodup).mp (Entries.mem_of_find?_eq_some hafter)
      obtain ⟨rfl, rfl⟩ := Prod.mk.inj heq
      obtain rfl := Entries.eq_of_mem_of_mem hnodup (Entries.mem_of_find?_eq_some hbefore) hmem
      exact ih _ hmem (hinside _ hmem)

theorem permitted_sanitize (hdistinct : value.Everywhere HasDistinctKeys) :
    value.sanitize.Everywhere Permitted := by
  induction value using parts_induction with
  | scalar value hscalar =>
      cases hscalar with
      | null => exact Scalar.null.everywhere_iff.mpr trivial
      | bool value => exact (Scalar.bool value).everywhere_iff.mpr trivial
      | number value => exact (Scalar.number value).everywhere_iff.mpr trivial
      | string text =>
          rw [sanitize, (Scalar.string _).everywhere_iff, Permitted, ← isBlockedText_iff]
          split
          · decide
          · assumption
  | array elements ih =>
      rw [sanitize, sanitizeElements_eq_map, everywhere_array_iff]
      refine ⟨trivial, List.forall_mem_map.mpr fun element hmem => ?_⟩
      exact ih element hmem ((everywhere_array_iff.mp hdistinct).2 element hmem)
  | object entries ih =>
      obtain ⟨hnodup, hinside⟩ := everywhere_object_iff.mp hdistinct
      refine everywhere_object_iff.mpr ⟨fun key hkey => ?_, fun entry hmem => ?_⟩
      · have hleft := (Entries.keys_sanitize_perm hnodup).mem_iff.mp hkey
        simpa using (List.mem_filter.mp hleft).2
      · obtain ⟨original, horiginal, -, rfl⟩ := (Entries.mem_sanitize hnodup).mp hmem
        exact ih original horiginal (hinside original horiginal)

theorem sanitize_of_permitted (hpermitted : value.Everywhere Permitted) :
    value.sanitize = value := by
  induction value using parts_induction with
  | scalar value hscalar =>
      cases hscalar with
      | null | bool | number => rfl
      | string text =>
          have htext : ¬IsBlocked text := (Scalar.string text).everywhere_iff.mp hpermitted
          rw [sanitize, if_neg (mt isBlockedText_iff.mp htext)]
  | array elements ih =>
      rw [sanitize, sanitizeElements_eq_map]
      have hsame : ∀ element ∈ elements, element.sanitize = id element := fun element hmem =>
        ih element hmem ((everywhere_array_iff.mp hpermitted).2 element hmem)
      rw [List.map_congr_left hsame, List.map_id]
  | object entries ih =>
      obtain ⟨hkeys, hinside⟩ := everywhere_object_iff.mp hpermitted
      have hsame : ∀ entry ∈ entries, (entry.1, entry.2.sanitize) = id entry := fun entry hmem =>
        Prod.ext rfl (ih entry hmem (hinside entry hmem))
      have hsecure : "secure" ∉ Entries.keys entries := fun hmem => hkeys _ hmem (.inl rfl)
      rw [sanitize, sanitizeEntries_eq_map, List.map_congr_left hsame, List.map_id,
        Entries.dropReserved_of_notMem hsecure, List.filter_eq_self.mpr]
      intro entry hmem
      exact decide_eq_true (hkeys entry.1 (List.mem_map_of_mem hmem))

end Json

/-- The entries are what sanitizing left of an object. -/
def Entries.Cleaned (entries : Entries) : Prop :=
  ∃ payload : Entries, (Json.object payload).Everywhere Json.HasDistinctKeys ∧
    entries = payload.sanitize

theorem Entries.Cleaned.nil : Cleaned [] :=
  ⟨[], Json.everywhere_object_iff.mpr ⟨List.nodup_nil, nofun⟩, rfl⟩

namespace Directive

theorem distinctKeys_readPayload {name : String} {text : List Char} {payload : Json}
    (hread : readPayload name text = .ok (some payload)) :
    payload.Everywhere Json.HasDistinctKeys := by
  have hjson {value : Json} (hvalue : readJson? text = some value) :
      value.Everywhere Json.HasDistinctKeys := by
    obtain ⟨parsed, -, rfl⟩ := Option.map_eq_some_iff.mp hvalue
    exact Json.distinctKeys_unify parsed
  unfold readPayload at hread
  split at hread
  · cases hread
  · split at hread
    · rename_i value hvalue
      obtain rfl := Option.some.inj (Except.ok.inj hread)
      exact hjson hvalue
    · cases hread
  · split at hread
    · rename_i value hvalue
      obtain rfl := Option.some.inj (Except.ok.inj hread)
      exact hjson hvalue
    · cases hread
  · obtain rfl := Option.some.inj (Except.ok.inj hread)
    exact (Json.Scalar.string _).distinctKeys

theorem distinctKeys_read {content : List Char} {directive : Directive}
    (hread : read content = .ok (some directive)) {payload : Json}
    (hpayload : directive.payload = some payload) : payload.Everywhere Json.HasDistinctKeys := by
  unfold read at hread
  dsimp only at hread
  generalize trim content = text at hread
  by_cases hempty : text.isEmpty = true
  · rw [if_pos hempty] at hread
    cases hread
  rw [if_neg hempty] at hread
  by_cases hname : (String.ofList (text.takeWhile isNameChar)).isEmpty = true
  · rw [if_pos hname] at hread
    cases hread
  rw [if_neg hname] at hread
  split at hread
  · obtain rfl := Option.some.inj (Except.ok.inj hread)
    cases hpayload
  · rename_i rest _
    obtain ⟨found, hfound, hread⟩ := Except.bind_eq_ok.mp hread
    obtain rfl := Option.some.inj (Except.ok.inj hread)
    exact distinctKeys_readPayload (hfound.trans (congrArg Except.ok hpayload))
  · cases hread

theorem cleaned_readEntries {name : String} {payload : Option Json} {entries : Entries}
    (hpayload : ∀ value, payload = some value → value.Everywhere Json.HasDistinctKeys)
    (hread : readEntries name payload = .ok entries) : entries.Cleaned := by
  unfold readEntries at hread
  split at hread
  · obtain rfl := Except.ok.inj hread
    exact .nil
  · rename_i object
    obtain rfl := Except.ok.inj hread
    exact ⟨object, hpayload _ rfl, rfl⟩
  · cases hread

/-- Only the entries of the payload can make a fragment. -/
theorem effect?_eq_fragment {directive : Directive} {fragment : Fragment}
    (heffect : directive.effect? = .ok (some (.fragment fragment))) :
    readEntries directive.name directive.payload = .ok fragment.entries := by
  obtain ⟨name, payload⟩ := directive
  have hmade {name : String} {kind : FragmentKind}
      (hmade : (do return some (.fragment { kind, entries := ← readEntries name payload }) :
        Except SourceError (Option Effect)) = .ok (some (.fragment fragment))) :
      readEntries name payload = .ok fragment.entries := by
    obtain ⟨entries, hentries, hmade⟩ := Except.bind_eq_ok.mp hmade
    cases hmade
    exact hentries
  unfold effect? at heffect
  dsimp only at heffect
  split at heffect
  · exact hmade heffect
  · exact hmade heffect
  · exact hmade heffect
  · cases heffect
  · cases heffect
  · cases heffect

end Directive

namespace FrontMatter

theorem cleaned_readConfig {entries config : Entries}
    (hdistinct : (Json.object entries).Everywhere Json.HasDistinctKeys)
    (hread : readConfig entries = .ok (some config)) : config.Cleaned := by
  unfold readConfig at hread
  split at hread
  · cases hread
  · cases hread
  · rename_i payload hfind
    obtain rfl := Option.some.inj (Except.ok.inj hread)
    have hmem := Entries.mem_of_find?_eq_some hfind
    exact ⟨payload, (Json.everywhere_object_iff.mp hdistinct).2 _ hmem, rfl⟩
  · cases hread

theorem cleaned_read {document : List Char} {frontMatter : FrontMatter} {config : Entries}
    (hread : read document = .ok frontMatter) (hconfig : frontMatter.config = some config) :
    config.Cleaned := by
  unfold read at hread
  split at hread
  · rename_i value hvalue
    have hdistinct := Yaml.distinctKeys_toJson? hvalue
    unfold ofJson at hread
    split at hread
    · rename_i entries
      obtain ⟨found, hfound, hread⟩ := Except.bind_eq_ok.mp hread
      cases hread
      exact cleaned_readConfig hdistinct (hfound.trans (congrArg Except.ok hconfig))
    · cases hread
      cases hconfig
  · cases hread

theorem cleaned_split {text body : List Char} {frontMatter : FrontMatter} {config : Entries}
    (hsplit : split text = .ok (frontMatter, body)) (hconfig : frontMatter.config = some config) :
    config.Cleaned := by
  unfold split at hsplit
  split at hsplit
  · cases hsplit
    cases hconfig
  · rename_i document rest _
    obtain ⟨found, hread, hsplit⟩ := Except.bind_eq_ok.mp hsplit
    cases hsplit
    exact cleaned_read hread hconfig

end FrontMatter

namespace Source

theorem cleaned_effects {offset : Nat} {segments : List Segment} {found : List (Nat × Directive)}
    {told : List (Nat × Directive.Effect)} (hread : readDirectives offset segments = .ok found)
    (heffects : effects found = .ok told) :
    ∀ fragment ∈ told.filterMap fragmentOf, fragment.entries.Cleaned := by
  induction segments generalizing offset found told with
  | nil =>
      obtain rfl := Except.ok.inj hread
      obtain rfl := Except.ok.inj heffects
      exact nofun
  | cons segment segments ih =>
      cases segment with
      | plain text => exact ih hread heffects
      | unclosed content => cases hread
      | directive content =>
          obtain ⟨directive, later, hdirective, hlater, rfl⟩ := readDirectives_directive hread
          cases directive with
          | none => exact ih hlater heffects
          | some directive =>
              obtain ⟨effect, toldLater, heffect, htold, rfl⟩ := effects_cons heffects
              have hrest := ih hlater htold
              rcases effect with _ | ⟨fragment⟩ | ⟨enabled⟩
              · exact hrest
              · refine List.forall_mem_cons.mpr ⟨?_, hrest⟩
                exact Directive.cleaned_readEntries
                  (fun payload hpayload => Directive.distinctKeys_read hdirective hpayload)
                  (Directive.effect?_eq_fragment heffect)
              · exact hrest

theorem cleaned_fragments {text : String} {source : Source} (hread : read text = .ok source) :
    ∀ fragment ∈ source.fragments, fragment.entries.Cleaned := by
  obtain ⟨frontMatter, body, found, told, hsplit, hdirectives, heffects, -, -, hfragments⟩ :=
    read_eq_ok hread
  rw [hfragments]
  refine List.forall_mem_append.mpr ⟨fun fragment hmem => ?_,
    cleaned_effects hdirectives heffects⟩
  obtain ⟨config, hconfig, rfl⟩ := Option.map_eq_some_iff.mp (Option.mem_toList.mp hmem)
  exact FrontMatter.cleaned_split hsplit hconfig

/-- **Sanitizing.** In a fragment of a source, no object has a reserved key and no text is blocked,
at any depth. Sanitizing takes out such keys and empties such texts, and changes nothing else but
the order of entries among which was `secure`; done once more, it changes nothing at all. What
stays as it is by sanitizing is what holds nothing of the kind. -/
theorem read_sanitizes :
    (∀ (text : String) (source : Source), read text = .ok source →
      ∀ fragment ∈ source.fragments,
        (Json.object fragment.entries).Everywhere Json.Permitted ∧ fragment.entries.Cleaned) ∧
      ∀ entries : Entries, (Json.object entries).Everywhere Json.HasDistinctKeys →
        Json.SanitizesTo (.object entries) (.object entries.sanitize) ∧
          entries.sanitize.sanitize = entries.sanitize ∧
          (entries.sanitize = entries ↔ (Json.object entries).Everywhere Json.Permitted) := by
  have hpermitted {entries : Entries}
      (hdistinct : (Json.object entries).Everywhere Json.HasDistinctKeys) :
      (Json.object entries.sanitize).Everywhere Json.Permitted :=
    Json.permitted_sanitize hdistinct
  have hsame {entries : Entries} (hentries : (Json.object entries).Everywhere Json.Permitted) :
      entries.sanitize = entries :=
    Json.object.inj (Json.sanitize_of_permitted hentries)
  refine ⟨fun text source hread fragment hmem => ?_, fun entries hdistinct =>
    ⟨Json.sanitizesTo_sanitize hdistinct, hsame (hpermitted hdistinct), fun heq => ?_, hsame⟩⟩
  · have hcleaned := cleaned_fragments hread fragment hmem
    obtain ⟨payload, hdistinct, hentries⟩ := id hcleaned
    rw [hentries] at hcleaned ⊢
    exact ⟨hpermitted hdistinct, hcleaned⟩
  · rw [← heq]
    exact hpermitted hdistinct

end Source

/-- A text with something to take out at three depths. -/
def smuggling : String :=
  "%%\x7binit: \x7b'secure': [], 'theme': '<b>', 'tags': [\x7b'__key': true, 'hue': 'red'\x7d]" ++
    "\x7d\x7d%%\nsequenceDiagram"

/-- The object in that text. -/
def smuggled : Entries :=
  [("secure", .array []), ("theme", .string "<b>"),
    ("tags", .array [.object [("__key", .bool true), ("hue", .string "red")]])]

theorem Source.smuggling_permitted :
    (∃ source, Source.read smuggling = .ok source ∧
      source.fragments.map (·.entries.keys) = [["tags", "theme"]] ∧
      ∀ fragment ∈ source.fragments, (Json.object fragment.entries).Everywhere Json.Permitted) ∧
      Json.SanitizesTo (.object smuggled) (.object smuggled.sanitize) ∧
      smuggled.sanitize.sanitize = smuggled.sanitize ∧
      smuggled.sanitize.keys = ["tags", "theme"] := by
  have hkeys : (Source.read smuggling).toOption.map (·.fragments.map (·.entries.keys)) =
      some [["tags", "theme"]] := by decide +kernel
  have hdistinct : (Json.object smuggled).Everywhere Json.HasDistinctKeys :=
    Json.distinctKeys_unify (.object smuggled)
  obtain ⟨hsanitized, hagain, -⟩ := read_sanitizes.2 smuggled hdistinct
  refine ⟨?_, hsanitized, hagain, by decide +kernel⟩
  cases hread : Source.read smuggling with
  | error fault =>
      rw [hread] at hkeys
      cases hkeys
  | ok source =>
      rw [hread] at hkeys
      exact ⟨source, rfl, Option.some.inj hkeys, fun fragment hmem =>
        (read_sanitizes.1 smuggling source hread fragment hmem).1⟩

end SequenceChart
