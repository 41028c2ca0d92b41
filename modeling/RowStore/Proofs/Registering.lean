import RowStore.Proofs.Engine.Shelves
/-!
# The catalog's two maps

A table is found by its number in one map and by its name in the other. Registering a file takes out the entry that
had its number and the one that had its name, which may be two, one or none, each of them from both maps. So the maps
stay each other's inverse, and nothing else leaves them.
-/

namespace RowStore

namespace Catalog

/-- What the one map says of a name, the other says of the number. -/
def Paired (c : Catalog) : Prop :=
  ∀ name table, c.named? name = some table ↔ ∃ entry, c.find? table = some entry ∧ entry.name = name

theorem paired_empty : empty.Paired := by
  intro name table
  simp [named?, find?, empty]

/-! ### An entry is taken out -/

theorem find?_dropTable (c : Catalog) (table other : TableId) :
    (c.dropTable table).find? other = if other = table then none else c.find? other := by
  rw [dropTable]
  cases old : c.find? table with
  | some entry => exact FinMap.get?_erase c.entries table other
  | none =>
    by_cases same : other = table
    · rw [if_pos same, same, old]
    · rw [if_neg same]

theorem named?_dropName (c : Catalog) (name other : String) :
    (c.dropName name).named? other = if other = name then none else c.named? other := by
  rw [dropName]
  cases old : c.named? name with
  | some table => exact FinMap.get?_erase c.names name other
  | none =>
    by_cases same : other = name
    · rw [if_pos same, same, old]
    · rw [if_neg same]

section

variable {c : Catalog} (paired : c.Paired)

include paired

theorem Paired.named?_dropTable (table found : TableId) (name : String) :
    (c.dropTable table).named? name = some found ↔ c.named? name = some found ∧ found ≠ table := by
  rw [dropTable]
  cases old : c.find? table with
  | none =>
    refine ⟨fun here => ⟨here, ?_⟩, fun here => here.1⟩
    rintro rfl
    obtain ⟨entry, present, -⟩ := (paired name found).mp here
    exact absurd (old.symm.trans present) (by simp)
  | some entry =>
    have held : c.named? entry.name = some table := (paired _ _).mpr ⟨entry, old, rfl⟩
    have erased := FinMap.get?_erase c.names entry.name name
    simp only [named?] at erased held ⊢
    rw [erased]
    split
    · rename_i same
      subst same
      simp [held, eq_comm]
    · rename_i differs
      refine ⟨fun here => ⟨here, ?_⟩, fun here => here.1⟩
      rintro rfl
      obtain ⟨entry', present, rfl⟩ := (paired name found).mp here
      cases old.symm.trans present
      exact differs rfl

theorem Paired.find?_dropName (name : String) (table : TableId) (entry : TableEntry) :
    (c.dropName name).find? table = some entry ↔ c.find? table = some entry ∧ entry.name ≠ name := by
  rw [dropName]
  cases old : c.named? name with
  | none =>
    refine ⟨fun here => ⟨here, ?_⟩, fun here => here.1⟩
    rintro rfl
    have present := (paired entry.name table).mpr ⟨entry, here, rfl⟩
    exact absurd (old.symm.trans present) (by simp)
  | some holder =>
    obtain ⟨held, found, named⟩ := (paired name holder).mp old
    have erased := FinMap.get?_erase c.entries holder table
    simp only [find?] at erased found ⊢
    rw [erased]
    split
    · rename_i same
      subst same
      simp only [reduceCtorEq, false_iff, not_and, not_not]
      intro here
      cases found.symm.trans here
      exact named
    · rename_i differs
      refine ⟨fun here => ⟨here, ?_⟩, fun here => here.1⟩
      rintro rfl
      have present := (paired entry.name table).mpr ⟨entry, here, rfl⟩
      exact differs (Option.some.inj (present.symm.trans old))

theorem Paired.paired_dropTable (table : TableId) : (c.dropTable table).Paired := by
  intro name found
  rw [paired.named?_dropTable, paired, find?_dropTable]
  constructor
  · rintro ⟨⟨entry, here, named⟩, differs⟩
    exact ⟨entry, by rw [if_neg differs, here], named⟩
  · rintro ⟨entry, here, named⟩
    split at here
    · cases here
    · rename_i differs
      exact ⟨⟨entry, here, named⟩, differs⟩

theorem Paired.find?_register (table found : TableId) (entry other : TableEntry) (differs : found ≠ table) :
    (c.register table entry).find? found = some other ↔ c.find? found = some other ∧ other.name ≠ entry.name := by
  rw [register, find?, FinMap.get?_insert_of_ne _ _ _ _ differs]
  rw [← find?, (paired.paired_dropTable table).find?_dropName, find?_dropTable, if_neg differs]

theorem Paired.named?_register (table found : TableId) (entry : TableEntry) (name : String)
    (differs : name ≠ entry.name) :
    (c.register table entry).named? name = some found ↔ c.named? name = some found ∧ found ≠ table := by
  rw [register, named?, FinMap.get?_insert_of_ne _ _ _ _ differs]
  rw [← named?, named?_dropName, if_neg differs, paired.named?_dropTable]

end

@[simp] theorem find?_register_self (c : Catalog) (table : TableId) (entry : TableEntry) :
    (c.register table entry).find? table = some entry :=
  FinMap.get?_insert_self _ _ _

@[simp] theorem named?_register_self (c : Catalog) (table : TableId) (entry : TableEntry) :
    (c.register table entry).named? entry.name = some table :=
  FinMap.get?_insert_self _ _ _

/-- A table that is registered is found both ways; the others are where they were in both maps or in neither. -/
theorem Paired.paired_register {c : Catalog} (paired : c.Paired) (table : TableId) (entry : TableEntry) :
    (c.register table entry).Paired := by
  intro name found
  by_cases sameName : name = entry.name
  · subst sameName
    rw [named?_register_self]
    constructor
    · intro here
      cases here
      exact ⟨entry, find?_register_self c table entry, rfl⟩
    · rintro ⟨other, here, named⟩
      by_cases same : found = table
      · rw [same]
      · exact absurd named ((paired.find?_register table found entry other same).mp here).2
  · rw [paired.named?_register table found entry name sameName, paired]
    constructor
    · rintro ⟨⟨other, here, rfl⟩, differs⟩
      exact ⟨other, (paired.find?_register table found entry other differs).mpr ⟨here, sameName⟩, rfl⟩
    · rintro ⟨other, here, rfl⟩
      have differs : found ≠ table := by
        rintro rfl
        rw [find?_register_self] at here
        cases here
        exact sameName rfl
      exact ⟨⟨other, ((paired.find?_register table found entry other differs).mp here).1, rfl⟩, differs⟩

/-! ### Any number of tables -/

variable (files : List TableFile)

/-- Registers an open file under a name. -/
def add (c : Catalog) (call : Fin files.length × String) : Catalog :=
  c.register files[call.1].table ⟨call.1, files[call.1].schema, call.2⟩

def registered (calls : List (Fin files.length × String)) : Catalog := calls.foldl (add files) empty

variable {files}

theorem registered_concat (calls : List (Fin files.length × String)) (call : Fin files.length × String) :
    registered files (calls ++ [call]) = (registered files calls).add files call := by
  rw [registered, List.foldl_append]
  rfl

theorem paired_registered (calls : List (Fin files.length × String)) : (registered files calls).Paired := by
  induction calls using List.reverseRecOn with
  | nil => exact paired_empty
  | append_singleton calls call ih =>
    rw [registered_concat]
    exact ih.paired_register _ _

/-- An entry is found under the number of its file, and it has its file's columns. -/
theorem file_of_registered (calls : List (Fin files.length × String)) {table : TableId} {entry : TableEntry}
    (found : (registered files calls).find? table = some entry) :
    ∃ file : Fin files.length, entry.file = file ∧ files[file].table = table ∧ files[file].schema = entry.schema := by
  induction calls using List.reverseRecOn with
  | nil => exact absurd found (by simp [registered, find?, empty])
  | append_singleton calls call ih =>
    rw [registered_concat] at found
    rcases find?_register_cases _ _ _ found with ⟨rfl, rfl⟩ | before
    · exact ⟨call.1, rfl, rfl, rfl⟩
    · exact ih before

/-- However files are registered, a name has a table exactly when the table is found and has that name, and every
entry is that of its file. The file that is registered next is there by its number and by its name, and of the others
exactly the one with its number and the one with its name are gone, from both maps. -/
theorem names_and_tables_are_inverse (files : List TableFile) (calls : List (Fin files.length × String))
    (file : Fin files.length) (name : String) :
    (∀ n table, (registered files calls).named? n = some table ↔
      ∃ entry, (registered files calls).find? table = some entry ∧ entry.name = n) ∧
    (∀ table entry, (registered files calls).find? table = some entry →
      ∃ place : Fin files.length, entry.file = place ∧ files[place].table = table ∧
        files[place].schema = entry.schema) ∧
    (registered files (calls ++ [(file, name)])).find? files[file].table = some ⟨file, files[file].schema, name⟩ ∧
    (registered files (calls ++ [(file, name)])).named? name = some files[file].table ∧
    (∀ table entry, table ≠ files[file].table →
      ((registered files (calls ++ [(file, name)])).find? table = some entry ↔
        (registered files calls).find? table = some entry ∧ entry.name ≠ name)) ∧
    ∀ n table, n ≠ name →
      ((registered files (calls ++ [(file, name)])).named? n = some table ↔
        (registered files calls).named? n = some table ∧ table ≠ files[file].table) := by
  have paired := paired_registered calls
  simp only [registered_concat]
  refine ⟨paired, fun table entry found => file_of_registered calls found, ?_, ?_, ?_, ?_⟩
  · exact find?_register_self _ _ _
  · exact named?_register_self _ _ ⟨file, files[file].schema, name⟩
  · exact fun table entry differs => paired.find?_register _ _ _ _ differs
  · exact fun n table differs => paired.named?_register _ _ ⟨file, files[file].schema, name⟩ _ differs

/-- Files that only grow, and more files: what was registered of the first was registered of these too. -/
theorem registered_of_more {files' : List TableFile} (more : ∀ (file : FileNo) f, files[file]? = some f →
      ∃ f', files'[file]? = some f' ∧ f'.table = f.table ∧ f'.schema = f.schema)
    (calls : List (Fin files.length × String)) : ∃ calls', registered files' calls' = registered files calls := by
  induction calls using List.reverseRecOn with
  | nil => exact ⟨[], rfl⟩
  | append_singleton calls call ih =>
    obtain ⟨calls', same⟩ := ih
    obtain ⟨f', opened, table, schema⟩ := more call.1 files[call.1] (List.getElem?_eq_getElem call.1.isLt)
    obtain ⟨inside, rfl⟩ := List.getElem?_eq_some_iff.mp opened
    refine ⟨calls' ++ [(⟨call.1, inside⟩, call.2)], ?_⟩
    rw [registered_concat, registered_concat, same, add, add]
    simp only [Fin.getElem_fin] at table schema ⊢
    rw [table, schema]

end Catalog

/-! ### The catalog of a store -/

namespace Engine

/-- Every file that was open is still open, as the same table with the same columns. -/
def Keeps (e e' : Engine) : Prop := ∀ (file : FileNo) f, e.files[file]? = some f →
  ∃ f', e'.files[file]? = some f' ∧ f'.table = f.table ∧ f'.schema = f.schema

theorem keeps_set {e : Engine} {file : FileNo} {f f' : TableFile} (opened : e.files[file]? = some f)
    (table : f'.table = f.table) (schema : f'.schema = f.schema) : Keeps e (e.setFile file f') := by
  intro other g found
  obtain ⟨inside, -⟩ := List.getElem?_eq_some_iff.mp opened
  by_cases same : file = other
  · subst same
    cases opened.symm.trans found
    exact ⟨f', List.getElem?_set_self inside, table, schema⟩
  · exact ⟨g, by rw [setFile, List.getElem?_set_ne same, found], rfl, rfl⟩

theorem Effect.to_keeps {e e' : Engine} (effect : Effect e e') : Keeps e e' := by
  cases effect with
  | aside recency locks => exact fun _ f opened => ⟨f, opened, rfl, rfl⟩
  | dropped p => exact fun _ f opened => ⟨f, opened, rfl, rfl⟩
  | edited here edit => exact fun _ f opened => ⟨f, opened, rfl, rfl⟩
  | loaded found opened reads =>
    obtain ⟨-, -, -, -, rfl⟩ := TableFile.read_eq_ok_iff.mp reads
    exact keeps_set opened rfl rfl
  | written here found opened writes =>
    obtain ⟨-, -, -, rfl⟩ := TableFile.write_eq_ok_iff.mp writes
    exact keeps_set opened rfl rfl
  | extended found opened => exact keeps_set opened rfl rfl

theorem Effects.to_keeps {e e' : Engine} (effects : Effects e e') : Keeps e e' := by
  refine @preserved_of_effects (Keeps e) ?_ e e' effects fun _ f opened => ⟨f, opened, rfl, rfl⟩
  intro e₁ e₂ sofar effect file f opened
  obtain ⟨f₁, opened₁, table₁, schema₁⟩ := sofar file f opened
  obtain ⟨f₂, opened₂, table₂, schema₂⟩ := effect.to_keeps file f₁ opened₁
  exact ⟨f₂, opened₂, table₂.trans table₁, schema₂.trans schema₁⟩

/-- The catalog holds what has been registered of the files that are open. -/
def Accounted (e : Engine) : Prop := ∃ calls, e.catalog = Catalog.registered e.files calls

namespace Accounted

variable {e e' : Engine} (accounted : e.Accounted)

include accounted

theorem of_keeps (keeps : Keeps e e') (catalog : e'.catalog = e.catalog) : e'.Accounted := by
  obtain ⟨calls, same⟩ := accounted
  obtain ⟨calls', same'⟩ := Catalog.registered_of_more keeps calls
  exact ⟨calls', by rw [catalog, same, same']⟩

theorem accounted_added (schema : Schema) (name fileName : String) : (e.added schema name fileName).Accounted := by
  obtain ⟨calls, same⟩ := accounted
  let files := e.files ++ [e.newFile schema fileName]
  have more : ∀ (file : FileNo) f, e.files[file]? = some f →
      ∃ f', files[file]? = some f' ∧ f'.table = f.table ∧ f'.schema = f.schema := by
    intro file f opened
    obtain ⟨inside, -⟩ := List.getElem?_eq_some_iff.mp opened
    exact ⟨f, by rw [List.getElem?_append_left inside, opened], rfl, rfl⟩
  obtain ⟨calls', same'⟩ := Catalog.registered_of_more more calls
  have last : e.files.length < files.length := by simp [files]
  have new : files[e.files.length] = e.newFile schema fileName := List.getElem_concat_length rfl last
  have again : Catalog.registered files (calls' ++ [(⟨e.files.length, last⟩, name)]) =
      e.catalog.register (e.volume.openTable fileName).1 ⟨e.files.length, schema, name⟩ := by
    rw [Catalog.registered_concat, same', ← same, Catalog.add]
    simp only [Fin.getElem_fin, new]
    rfl
  exact ⟨_, again.symm⟩

end Accounted

end Engine

open Engine

/-- The catalog of a store holds what has been registered of its open files, whatever else has been done. -/
theorem Course.catalog_is_registered (settings : Settings) (volume : Volume) (moves : List Move) :
    (after settings volume moves).engine.Accounted := by
  induction moves using List.reverseRecOn with
  | nil => exact ⟨[], rfl⟩
  | append_singleton moves move ih =>
    rw [after_concat]
    cases move with
    | step op =>
      have effects := (kept_after settings volume moves).effects_step op
      exact ih.of_keeps effects.to_keeps (catalog_of_effects effects)
    | register path schema name =>
      change (outcome (createTable path schema name) (after settings volume moves).engine).2.Accounted
      rcases createTable_cases path schema name (after settings volume moves).engine with same | ⟨fileName, -, -, same⟩
      · rw [same]
        exact ih
      · rw [same]
        exact ih.accounted_added schema name fileName

end RowStore
