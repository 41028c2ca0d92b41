/-!
# Finite maps

A finite map is a list of bindings in which no key occurs twice. `get?` is its meaning; the order of
the bindings means nothing.
-/

namespace RowStore

structure FinMap (κ : Type) (α : Type) where
  entries : List (κ × α)
  distinct : entries.Pairwise fun a b => a.1 ≠ b.1

namespace FinMap

variable {κ α : Type} [DecidableEq κ]

def empty : FinMap κ α := ⟨[], .nil⟩

instance : Inhabited (FinMap κ α) := ⟨empty⟩

def size (m : FinMap κ α) : Nat := m.entries.length

def keys (m : FinMap κ α) : List κ := m.entries.map (·.1)

def get? (m : FinMap κ α) (key : κ) : Option α := m.entries.lookup key

def contains (m : FinMap κ α) (key : κ) : Bool := (m.get? key).isSome

/-- The bindings that pass a test. -/
def filter (m : FinMap κ α) (keep : κ → α → Bool) : FinMap κ α :=
  ⟨m.entries.filter fun entry => keep entry.1 entry.2, m.distinct.filter _⟩

def erase (m : FinMap κ α) (key : κ) : FinMap κ α := m.filter fun k _ => decide (k ≠ key)

def insert (m : FinMap κ α) (key : κ) (value : α) : FinMap κ α where
  entries := (key, value) :: (m.erase key).entries
  distinct := by
    refine List.Pairwise.cons ?_ (m.erase key).distinct
    intro entry inRest
    have kept := (List.mem_filter.mp inRest).2
    simpa using fun same : key = entry.1 => by simp [same] at kept

def map {β : Type} (m : FinMap κ α) (f : κ → α → β) : FinMap κ β where
  entries := m.entries.map fun entry => (entry.1, f entry.1 entry.2)
  distinct := List.pairwise_map.mpr m.distinct

/-! ### What the operations do to the meaning -/

theorem lookup_filter_key (entries : List (κ × α)) (keep : κ → Bool) (key : κ) :
    (entries.filter fun entry => keep entry.1).lookup key =
      if keep key then entries.lookup key else none := by
  induction entries with
  | nil => simp
  | cons entry rest ih =>
    obtain ⟨k, value⟩ := entry
    by_cases same : key = k
    · subst same
      by_cases kept : keep key
      · simp [kept]
      · simpa [kept] using ih
    · have differs : (key == k) = false := by simpa using same
      by_cases kept : keep k
      · simpa [kept, List.lookup_cons, differs] using ih
      · simpa [kept, List.lookup_cons, differs] using ih

@[simp] theorem get?_empty (key : κ) : (empty : FinMap κ α).get? key = none := rfl

theorem get?_erase (m : FinMap κ α) (key other : κ) :
    (m.erase key).get? other = if other = key then none else m.get? other := by
  have found := lookup_filter_key m.entries (fun k => decide (k ≠ key)) other
  simp only [decide_eq_true_eq, ite_not] at found
  exact found

theorem get?_insert (m : FinMap κ α) (key other : κ) (value : α) :
    (m.insert key value).get? other = if other = key then some value else m.get? other := by
  by_cases same : other = key
  · subst same
    simp [get?, insert]
  · have differs : (other == key) = false := by simpa using same
    have rest := get?_erase m key other
    simp only [get?, insert, List.lookup_cons, differs, same, if_false] at rest ⊢
    exact rest

theorem get?_map {β : Type} (m : FinMap κ α) (f : κ → α → β) (key : κ) :
    (m.map f).get? key = (m.get? key).map (f key) := by
  obtain ⟨entries, distinct⟩ := m
  simp only [get?, map]
  clear distinct
  induction entries with
  | nil => rfl
  | cons entry rest ih =>
    obtain ⟨k, value⟩ := entry
    by_cases same : key = k
    · subst same
      simp
    · have differs : (key == k) = false := by simpa using same
      simpa [List.lookup_cons, differs] using ih

theorem get?_eq_some_iff (m : FinMap κ α) (key : κ) (value : α) :
    m.get? key = some value ↔ (key, value) ∈ m.entries := by
  obtain ⟨entries, distinct⟩ := m
  simp only [get?]
  induction entries with
  | nil => simp
  | cons entry rest ih =>
    obtain ⟨first, later⟩ := List.pairwise_cons.mp distinct
    obtain ⟨k, v⟩ := entry
    by_cases same : key = k
    · subst same
      have absent : (key, value) ∉ rest := fun inRest => first _ inRest rfl
      simp [absent, eq_comm]
    · have differs : (key == k) = false := by simpa using same
      simp [List.lookup_cons, differs, ih later, same]

end FinMap

end RowStore
