import RowStore.FinMap
/-!
# Keys of a finite map

The keys are those that have a value, none of them twice, and a filter keeps the values that pass. So
the size of a map depends on nothing but its keys.
-/

namespace RowStore.FinMap

variable {κ α : Type}

theorem nodup_keys (m : FinMap κ α) : m.keys.Nodup := List.pairwise_map.mpr m.distinct

theorem size_eq_length_keys (m : FinMap κ α) : m.size = m.keys.length := (List.length_map _).symm

variable [DecidableEq κ]

theorem mem_keys_iff (m : FinMap κ α) (key : κ) : key ∈ m.keys ↔ ∃ value, m.get? key = some value := by
  constructor
  · intro inKeys
    obtain ⟨entry, inEntries, rfl⟩ := List.mem_map.mp inKeys
    exact ⟨entry.2, (m.get?_eq_some_iff entry.1 entry.2).mpr inEntries⟩
  · rintro ⟨value, found⟩
    exact List.mem_map.mpr ⟨(key, value), (m.get?_eq_some_iff key value).mp found, rfl⟩

theorem get?_filter (m : FinMap κ α) (keep : κ → α → Bool) (key : κ) :
    (m.filter keep).get? key = (m.get? key).filter (keep key) := by
  apply Option.ext
  intro value
  rw [get?_eq_some_iff, filter, List.mem_filter, ← get?_eq_some_iff, Option.filter_eq_some_iff]

@[simp] theorem get?_insert_self (m : FinMap κ α) (key : κ) (value : α) :
    (m.insert key value).get? key = some value := by
  rw [get?_insert, if_pos rfl]

theorem get?_insert_of_ne (m : FinMap κ α) (key other : κ) (value : α) (differs : other ≠ key) :
    (m.insert key value).get? other = m.get? other := by
  rw [get?_insert, if_neg differs]

@[simp] theorem get?_erase_self (m : FinMap κ α) (key : κ) : (m.erase key).get? key = none := by
  rw [get?_erase, if_pos rfl]

theorem get?_erase_of_ne (m : FinMap κ α) (key other : κ) (differs : other ≠ key) :
    (m.erase key).get? other = m.get? other := by
  rw [get?_erase, if_neg differs]

theorem size_eq_of_same_keys {β : Type} {m : FinMap κ α} {m' : FinMap κ β}
    (same : ∀ key, (m.get? key).isSome = (m'.get? key).isSome) : m.size = m'.size := by
  have perm : m.keys.Perm m'.keys := by
    rw [List.perm_ext_iff_of_nodup m.nodup_keys m'.nodup_keys]
    intro key
    rw [mem_keys_iff, mem_keys_iff, ← Option.isSome_iff_exists, ← Option.isSome_iff_exists, same]
  rw [size_eq_length_keys, size_eq_length_keys, perm.length_eq]

theorem size_insert (m : FinMap κ α) (key : κ) (value : α) :
    (m.insert key value).size = (m.erase key).size + 1 := rfl

theorem size_erase_of_absent {m : FinMap κ α} {key : κ} (absent : m.get? key = none) :
    (m.erase key).size = m.size := by
  apply size_eq_of_same_keys
  intro other
  rw [get?_erase]
  split
  · rename_i same
    rw [same, absent]
  · rfl

theorem size_insert_of_present {m : FinMap κ α} {key : κ} (value : α) (present : (m.get? key).isSome) :
    (m.insert key value).size = m.size := by
  apply size_eq_of_same_keys
  intro other
  rw [get?_insert]
  split
  · rename_i same
    rw [same, present]
    rfl
  · rfl

theorem size_erase_of_present {m : FinMap κ α} {key : κ} (present : (m.get? key).isSome) :
    (m.erase key).size + 1 = m.size := by
  obtain ⟨value, -⟩ := Option.isSome_iff_exists.mp present
  rw [← size_insert m key value, size_insert_of_present value present]

omit [DecidableEq κ] in
theorem size_filter_le (m : FinMap κ α) (keep : κ → α → Bool) : (m.filter keep).size ≤ m.size :=
  List.length_filter_le _ _

end RowStore.FinMap
