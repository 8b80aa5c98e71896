import SequenceChart.Json.Basic

/-!
# Entries of objects

An entry that is inserted is found under its key, and all other entries stay where they are. So an
object that holds each key once does so after every insertion.
-/

namespace SequenceChart

namespace Entries

@[simp]
theorem keys_nil : keys [] = [] := rfl

@[simp]
theorem keys_cons (entry : String × Json) (entries : Entries) :
    keys (entry :: entries) = entry.1 :: entries.keys := rfl

theorem find?_cons (entry : String × Json) (entries : Entries) (key : String) :
    find? (entry :: entries) key = if key = entry.1 then some entry.2 else entries.find? key := by
  unfold find?
  rw [List.lookup_cons]
  by_cases hkey : key = entry.1
  · rw [if_pos hkey, beq_iff_eq.mpr hkey]
  · rw [if_neg hkey, beq_eq_false_iff_ne.mpr hkey]

theorem find?_insert (entries : Entries) (key other : String) (value : Json) :
    (entries.insert key value).find? other =
      if other = key then some value else entries.find? other := by
  induction entries with
  | nil => rw [insert, find?_cons]
  | cons entry rest ih =>
      rw [insert]
      split
      · rename_i hkey
        rw [find?_cons, find?_cons, hkey]
        split <;> rfl
      · rename_i hkey
        rw [find?_cons, find?_cons, ih]
        by_cases hother : other = entry.1
        · rw [if_pos hother, if_pos hother, if_neg (hother ▸ hkey)]
        · rw [if_neg hother, if_neg hother]

theorem mem_keys_insert {entries : Entries} {key other : String} {value : Json} :
    other ∈ (entries.insert key value).keys ↔ other = key ∨ other ∈ entries.keys := by
  induction entries with
  | nil => simp [insert]
  | cons entry rest ih =>
      rw [insert]
      split
      · rename_i hkey
        simp [hkey]
      · rw [keys_cons, keys_cons, List.mem_cons, List.mem_cons, ih]
        exact or_left_comm

theorem nodup_keys_insert {entries : Entries} (hnodup : entries.keys.Nodup) (key : String)
    (value : Json) : (entries.insert key value).keys.Nodup := by
  induction entries with
  | nil => simp [insert]
  | cons entry rest ih =>
      rw [keys_cons, List.nodup_cons] at hnodup
      rw [insert]
      split
      · rename_i hkey
        rw [keys_cons, List.nodup_cons]
        exact ⟨hkey ▸ hnodup.1, hnodup.2⟩
      · rename_i hkey
        rw [keys_cons, List.nodup_cons, mem_keys_insert]
        refine ⟨?_, ih hnodup.2⟩
        rintro (hsame | hmem)
        · exact hkey hsame
        · exact hnodup.1 hmem

/-- A new key comes last. -/
theorem insert_of_notMem {entries : Entries} {key : String} (hnew : key ∉ entries.keys)
    (value : Json) : entries.insert key value = entries ++ [(key, value)] := by
  induction entries with
  | nil => rfl
  | cons entry rest ih =>
      rw [keys_cons, List.mem_cons, not_or] at hnew
      rw [insert, if_neg (Ne.symm hnew.1), ih hnew.2]
      rfl

end Entries

end SequenceChart
