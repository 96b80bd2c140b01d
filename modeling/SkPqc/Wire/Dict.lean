import SkPqc.Wire.Json

/-!
# Updating a dict

A Python `dict` with string keys is the list of its items in insertion order, as in `Json.obj`. `d[key] = value`
keeps the place of a key that is there, and puts one that is not at the end.
-/

namespace Wire

variable {α : Type*} (key : Str) (value : α)

/-- `d[key] = value` -/
def setItem : List (Str × α) → List (Str × α)
  | [] => [(key, value)]
  | (k, v) :: ms => if k = key then (k, value) :: ms else (k, v) :: setItem ms

theorem lookup_setItem (ms : List (Str × α)) (k : Str) :
    lookup k (setItem key value ms) = if key = k then some value else lookup k ms := by
  induction ms with
  | nil => rfl
  | cons m ms ih =>
    obtain ⟨k', v⟩ := m
    rw [setItem]
    by_cases hkey : k' = key
    · subst hkey
      rw [if_pos rfl, lookup, lookup]
      by_cases hk : k' = k
      · rw [if_pos hk, if_pos hk]
      · rw [if_neg hk, if_neg hk, if_neg hk]
    · rw [if_neg hkey, lookup, lookup, ih]
      by_cases hk : k' = k
      · subst hk
        rw [if_pos rfl, if_pos rfl, if_neg (Ne.symm hkey)]
      · rw [if_neg hk, if_neg hk]

variable {key value}

theorem eq_or_mem_of_mem_setItem {ms : List (Str × α)} {m : Str × α} (h : m ∈ setItem key value ms) :
    m = (key, value) ∨ m ∈ ms := by
  induction ms with
  | nil => exact .inl (List.mem_singleton.mp h)
  | cons m' ms ih =>
    obtain ⟨k, v⟩ := m'
    rw [setItem] at h
    by_cases hkey : k = key
    · subst hkey
      rw [if_pos rfl] at h
      rcases List.mem_cons.mp h with hm | hm
      · exact .inl hm
      · exact .inr (List.mem_cons_of_mem _ hm)
    · rw [if_neg hkey] at h
      rcases List.mem_cons.mp h with rfl | hm
      · exact .inr List.mem_cons_self
      · rcases ih hm with hm | hm
        · exact .inl hm
        · exact .inr (List.mem_cons_of_mem _ hm)

/-- The keys stay distinct. -/
theorem nodup_setItem {ms : List (Str × α)} (h : (ms.map Prod.fst).Nodup) :
    ((setItem key value ms).map Prod.fst).Nodup := by
  induction ms with
  | nil => exact List.nodup_singleton key
  | cons m ms ih =>
    obtain ⟨k, v⟩ := m
    obtain ⟨hfresh, hrest⟩ := List.nodup_cons.mp h
    rw [setItem]
    by_cases hkey : k = key
    · rw [if_pos hkey]
      exact List.nodup_cons.mpr ⟨hfresh, hrest⟩
    · rw [if_neg hkey, List.map_cons]
      refine List.nodup_cons.mpr ⟨?_, ih hrest⟩
      intro hmem
      obtain ⟨m, hm, hfst⟩ := List.mem_map.mp hmem
      rcases eq_or_mem_of_mem_setItem hm with rfl | hm
      · exact hkey hfst.symm
      · exact hfresh (List.mem_map.mpr ⟨m, hm, hfst⟩)

end Wire
