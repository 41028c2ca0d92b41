import RowStore.Proofs.Engine.Ending
import RowStore.Proofs.Engine.Neighbours
/-!
# What each action leaves to the others

A row is put on a page, or taken from one, only by a transaction that has the page to itself, and a file
with pages grows only after its first page was locked. A commit writes and an abort drops the pages of
the one transaction; an abort drops all of them, and a commit that fails leaves one behind.
-/

namespace RowStore

namespace LockTable

variable {t t' : LockTable} {txn : TxnId} {p : PageId}

/-- Whoever may have a page exclusively finds nobody else there. -/
theorem alone_of_blockers_eq_nil (clear : t.blockers ⟨txn, p, .exclusive⟩ = []) {other : TxnId}
    (differs : other ≠ txn) : t.mode? other p = none := by
  cases held : t.mode? other p with
  | none => rfl
  | some mode =>
    have passed := (t.blockers_eq_nil_iff _).mp clear other mode differs held
    exact absurd passed (by simp [conflict])

theorem mode?_grant_exclusive : (t.grant ⟨txn, p, .exclusive⟩).mode? txn p = some .exclusive := by
  rw [mode?_grant_self t ⟨txn, p, .exclusive⟩, ite_self]

theorem Compatible.mode?_eq_none_of_ne (compatible : t.Compatible) (exclusive : t.mode? txn p = some .exclusive)
    {other : TxnId} (differs : other ≠ txn) : t.mode? other p = none := by
  cases held : t.mode? other p with
  | none => rfl
  | some mode => exact absurd (compatible p txn other mode exclusive held) differs

end LockTable

namespace Catalog

theorem find?_of_erase {c : Catalog} {table other : TableId} {names : FinMap String TableId} {entry : TableEntry}
    (found : Catalog.find? ⟨c.entries.erase table, names⟩ other = some entry) : c.find? other = some entry := by
  rw [find?, FinMap.get?_erase] at found
  split at found
  · exact absurd found (by simp)
  · exact found

theorem find?_of_dropTable {c : Catalog} {table other : TableId} {entry : TableEntry}
    (found : (c.dropTable table).find? other = some entry) : c.find? other = some entry := by
  rw [dropTable] at found
  split at found
  · exact find?_of_erase found
  · exact found

theorem find?_of_dropName {c : Catalog} {name : String} {other : TableId} {entry : TableEntry}
    (found : (c.dropName name).find? other = some entry) : c.find? other = some entry := by
  rw [dropName] at found
  split at found
  · exact find?_of_erase found
  · exact found

/-- Registering a table brings no other table into the catalog. -/
theorem find?_register_cases (c : Catalog) (table : TableId) (entry : TableEntry) {other : TableId}
    {found : TableEntry} (here : (c.register table entry).find? other = some found) :
    (other = table ∧ found = entry) ∨ c.find? other = some found := by
  rw [register, find?, FinMap.get?_insert] at here
  split at here
  · rename_i same
    cases here
    exact .inl ⟨same, rfl⟩
  · exact .inr (find?_of_dropTable (find?_of_dropName here))

end Catalog

namespace Engine

/-- The transaction has the page exclusively. -/
def Reserved (txn : TxnId) (e : Engine) (p : PageId) : Prop := e.locks.mode? txn p = some .exclusive

/-- Nobody but the transaction has the page locked. -/
def Undisputed (txn : TxnId) (e : Engine) (p : PageId) : Prop :=
  ∀ other, other ≠ txn → e.locks.mode? other p = none

section

variable {txn : TxnId} {e e' : Engine} {p : PageId}

theorem Regular.undisputed_of_reserved (regular : e.Regular) (reserved : Reserved txn e p) : Undisputed txn e p :=
  fun _ differs => regular.compatible.mode?_eq_none_of_ne reserved differs

theorem Spared.undisputed_mono (spared : Spared txn e e') (alone : Undisputed txn e p) : Undisputed txn e' p := by
  intro other differs
  rw [spared.locks.others other p differs]
  exact alone other differs

theorem Spared.spared_insert (alone : Undisputed txn e p) {changed : Page} (id : changed.id = p)
    (changes : ∀ other, changed.dirtier = some other → (other = txn ∧ Reserved txn e p) ∨
      ∃ before, e.resident.get? p = some before ∧ before.dirtier = some other) :
    Spared txn e { e with resident := e.resident.insert changed.id changed } := by
  have inserted : ∀ q, (e.resident.insert changed.id changed).get? q =
      if q = p then some changed else e.resident.get? q := by
    intro q
    rw [FinMap.get?_insert, id]
  refine ⟨⟨rfl, fun _ => rfl⟩, .refl, ?_, ?_, fun _ => Nat.le_refl _, fun _ _ _ _ => rfl⟩
  · intro q page other differs held here
    refine (inserted q).trans ((if_neg ?_).trans here)
    rintro rfl
    exact held (alone other differs)
  · intro q page other here dirty
    have here := (inserted q).symm.trans here
    split at here
    · rename_i same
      cases here
      rw [same]
      exact changes other dirty
    · exact .inr ⟨page, here, dirty⟩

end

/-! ### Rows -/

section Rows

variable {e : Engine} (regular : e.Regular) (txn : TxnId)

include regular

theorem markDirty_spares {p : PageId} (reserved : Reserved txn e p) :
    Ensures (markDirty txn (.current p)) e fun _ e' => Spared txn e e' := by
  rw [Ensures, markDirty_current]
  cases resident : e.resident.get? p with
  | none => exact .refl
  | some page =>
    have id : page.id = p := regular.tidy.own resident
    refine .spared_insert (regular.undisputed_of_reserved reserved) (show (page.markDirty txn).id = p from id) ?_
    intro other same
    cases same
    exact .inl ⟨rfl, reserved⟩

/-- When the transaction gets a page exclusively, it has it to itself. -/
theorem getPage_exclusive (p : PageId) : Ensures (getPage txn p .exclusive) e fun answer e' =>
    e'.Regular ∧ Spared txn e e' ∧ ∀ page, answer = .ok page → page.id = p ∧
      e'.resident.get? p = some page ∧ Looked txn e e' ∧ Undisputed txn e p ∧ Reserved txn e' p := by
  refine (getPage_looks regular txn p .exclusive).mono ?_
  rintro answer e' ⟨regular', looked, gotten⟩
  refine ⟨regular', looked.to_spared, ?_⟩
  intro page done
  obtain ⟨id, resident, clear, locks⟩ := gotten page done
  refine ⟨id, resident, looked, fun other => LockTable.alone_of_blockers_eq_nil clear, ?_⟩
  rw [Reserved, locks, LockTable.mode?_grant_exclusive]

omit regular in
theorem unlockUnless_looked {e' : Engine} (looked : Looked txn e e') (p : PageId) :
    Ensures (unlockUnless (e.locks.holds txn p) txn p) e' fun _ e'' => Looked txn e e'' := by
  cases held : e.locks.holds txn p with
  | true => exact looked
  | false =>
    have free : e.locks.mode? txn p = none := by
      rw [LockTable.holds, Option.isSome_eq_false_iff, Option.isNone_iff_eq_none] at held
      exact held
    exact ⟨looked.toSameLengths.trans (.of_files rfl rfl), looked.locks.extends_release p free, looked.copies,
      looked.changes⟩

theorem insertOn_spares (p : PageId) (row : Row) : Ensures (insertOn txn p row) e fun answer e' =>
    Spared txn e e' ∧ (∀ found, answer = .ok found → Undisputed txn e p) ∧
      ∀ location, answer = .ok (some location) → Reserved txn e' location.page := by
  refine .get_bind ((getPage_exclusive regular txn p).bind ?_ ?_)
  · rintro page e₁ ⟨regular₁, spared, gotten⟩
    obtain ⟨id, resident, looked, alone, reserved⟩ := gotten page rfl
    by_cases full : page.freeSlots = 0
    · rw [if_pos full]
      refine (unlockUnless_looked txn looked p).bind ?_ ?_
      · intro _ e₂ looked₂
        exact .pure ⟨looked₂.to_spared, fun _ _ => alone, fun _ failed => absurd failed (by simp)⟩
      · intro fault e₂ looked₂
        exact ⟨looked₂.to_spared, fun _ failed => absurd failed (by simp), fun _ failed => absurd failed (by simp)⟩
    · rw [if_neg full]
      have placed : Ensures (place page row) e₁ fun answer e' => Spared txn e e' ∧
          ∀ location, answer = .ok location → Reserved txn e' location.page := by
        refine (place_ensures page row e₁).mono ?_
        rintro (fault | location) e₂ placed
        · obtain ⟨rfl, -⟩ := placed
          exact ⟨spared, fun _ failed => absurd failed (by simp)⟩
        · obtain ⟨slot, -, -, -, -, rfl, rfl⟩ := placed
          have replaced := Spared.spared_insert (spared.undisputed_mono alone)
            (show (page.putAt slot (some row.values)).id = p from id) fun other dirty => .inr ⟨page, resident, dirty⟩
          refine ⟨spared.trans replaced, ?_⟩
          rintro given ⟨⟩
          show Reserved txn _ page.id
          rw [id]
          exact reserved
      refine placed.map ?_ ?_
      · rintro location e₂ ⟨spared₂, reserved₂⟩
        refine ⟨spared₂, fun _ _ => alone, ?_⟩
        intro given same
        cases same
        exact reserved₂ location rfl
      · rintro fault e₂ ⟨spared₂, -⟩
        exact ⟨spared₂, fun _ failed => absurd failed (by simp), fun _ failed => absurd failed (by simp)⟩
  · rintro fault e₁ ⟨-, spared, -⟩
    exact ⟨spared, fun _ failed => absurd failed (by simp), fun _ failed => absurd failed (by simp)⟩

/-- The first of the pages is tried before anything else is done. -/
theorem insertOnFirst_spares (row : Row) (pages : List PageId) :
    Ensures (insertOnFirst txn row pages) e fun answer e' =>
      e'.Regular ∧ Spared txn e e' ∧ (∀ found, answer = .ok found → ∀ p ∈ pages.head?, Undisputed txn e p) ∧
        ∀ location, answer = .ok (some location) → Reserved txn e' location.page := by
  induction pages generalizing e with
  | nil => exact .pure ⟨regular, .refl, by simp, by simp⟩
  | cons p rest ih =>
    refine ((insertOn_tidies txn p row e regular.tidy).and (insertOn_spares regular txn p row)).bind ?_ ?_
    · rintro answer e₁ ⟨orderly, spared, alone, reserved⟩
      have regular₁ := spared.regular_of_tidy regular orderly.tidy
      have first : ∀ q ∈ (p :: rest).head?, Undisputed txn e q := by
        intro q same
        cases same
        exact alone answer rfl
      cases answer with
      | some location =>
        refine .pure ⟨regular₁, spared, fun _ _ => first, ?_⟩
        intro given same
        cases same
        exact reserved location rfl
      | none =>
        refine (ih regular₁).mono ?_
        rintro answer e₂ ⟨regular₂, spared₂, -, reserved₂⟩
        exact ⟨regular₂, spared.trans spared₂, fun _ _ => first, reserved₂⟩
    · rintro fault e₁ ⟨orderly, spared, -, -⟩
      exact ⟨spared.regular_of_tidy regular orderly.tidy, spared, fun _ failed => absurd failed (by simp),
        fun _ failed => absurd failed (by simp)⟩

/-- The transaction may make the file longer: it has no page, or nobody else has locked its first. -/
def MayGrow (txn : TxnId) (e : Engine) (file : FileNo) : Prop :=
  ∀ table, e.tableOf? file = some table → 0 < e.pagesOf file → Undisputed txn e ⟨table, 0⟩

omit regular in
/-- The growth counts as part of what was done since the file was found fit to grow. -/
theorem extendFile_spares {e₁ : Engine} {file : FileNo} (grows : MayGrow txn e file)
    (spared : Spared txn e e₁) (table : TableId) :
    Ensures (extendFile file table) e₁ fun _ e' => Spared txn e e' := by
  refine (openFile_opens file table e₁).bind ?_ ?_
  · rintro f e₁ ⟨rfl, opened⟩
    have opened := opened f rfl
    have files : ∀ contents : Bytes, ({ e₁.setFile file { f with pages := f.pages + 1 } with
        volume := e₁.volume.put f.name contents } : Engine).files =
          e₁.files.set file { f with pages := f.pages + 1 } := fun _ => rfl
    have tables := tableOf?_of_set opened (files (f.extend (e₁.contentsOf f)).1) rfl
    have lengths := pagesOf_of_set opened (files (f.extend (e₁.contentsOf f)).1)
    refine ⟨spared.toSameFiling.trans ⟨rfl, tables⟩, spared.locks, spared.copies, spared.changes, ?_, ?_⟩
    · intro other
      refine Nat.le_trans (spared.longer other) (Nat.le_trans ?_ (Nat.le_of_eq (lengths other).symm))
      split
      · rename_i same
        rw [same, pagesOf, opened]
        exact Nat.le_succ _
      · exact Nat.le_refl _
    · intro other owner holder owned some differs held
      refine (lengths other).trans ((if_neg ?_).trans (spared.lengths owned some differs held))
      rintro rfl
      exact held (grows owner owned some holder differs)
  · rintro fault e₁ ⟨rfl, -⟩
    exact spared

theorem insertOnNew_spares {e₁ : Engine} {file : FileNo} (grows : MayGrow txn e file)
    (spared : Spared txn e e₁) (regular₁ : e₁.Regular) (table : TableId) (row : Row) (tries : Nat) :
    Ensures (insertOnNew txn file table row tries) e₁ fun answer e' => Spared txn e e' ∧
      ∀ location, answer = .ok location → Reserved txn e' location.page := by
  -- Only the engine the search began on says that the file may grow, so it stays fixed: every try is
  -- related to that engine and not to the one before it.
  induction tries generalizing e₁ with
  | zero => exact .throw ⟨spared, by simp⟩
  | succ tries ih =>
    refine ((extendFile_tidies file table e₁ regular₁.tidy).and
      (extendFile_spares txn grows spared table)).bind ?_ ?_
    · rintro p e₂ ⟨orderly, spared₂⟩
      have regular₂ := spared₂.regular_of_tidy regular orderly.tidy
      refine ((insertOn_tidies txn p row e₂ regular₂.tidy).and (insertOn_spares regular₂ txn p row)).bind ?_ ?_
      · rintro answer e₃ ⟨orderly₃, spared₃, -, reserved⟩
        cases answer with
        | some location =>
          refine .pure ⟨spared₂.trans spared₃, ?_⟩
          intro given same
          cases same
          exact reserved location rfl
        | none => exact ih (spared₂.trans spared₃) (spared₃.regular_of_tidy regular₂ orderly₃.tidy)
      · rintro fault e₃ ⟨-, spared₃, -⟩
        exact ⟨spared₂.trans spared₃, by simp⟩
    · rintro fault e₂ ⟨-, spared₂⟩
      exact ⟨spared₂, by simp⟩

theorem insertInFile_spares {file : FileNo} {table : TableId} (owned : e.tableOf? file = some table)
    (row : Row) : Ensures (insertInFile txn file table row) e fun answer e' => Spared txn e e' ∧
      ∀ location, answer = .ok location → Reserved txn e' location.page := by
  refine .get_bind ((insertOnFirst_spares regular txn row _).bind ?_ ?_)
  · rintro answer e₁ ⟨regular₁, spared, first, reserved⟩
    cases answer with
    | some location =>
      refine .pure ⟨spared, ?_⟩
      intro given same
      cases same
      exact reserved location rfl
    | none =>
      refine .get_bind (insertOnNew_spares regular txn ?_ spared regular₁ table row _)
      intro owner owned' some
      rw [owned] at owned'
      cases owned'
      -- A file with pages was searched from its first, and that one was locked exclusively on the way.
      apply first none rfl
      obtain ⟨pages, more⟩ := Nat.exists_eq_succ_of_ne_zero (Nat.ne_of_gt some)
      rw [more, List.range_succ_eq_map]
      rfl
  · rintro fault e₁ ⟨-, spared, -, -⟩
    exact ⟨spared, by simp⟩

theorem insert_spares (table : TableId) (row : Row) :
    Ensures (insert txn table row) e fun _ e' => e'.Regular ∧ Spared txn e e' := by
  have spares : Ensures (insert txn table row) e fun _ e' => Spared txn e e' := by
    refine (resolve_ensures table).bind ?_ fun _ _ same => same.1 ▸ .refl
    rintro entry e ⟨rfl, found⟩
    refine (checkSchema_ensures entry.schema row.schema e).bind ?_ fun _ _ same => same ▸ .refl
    rintro _ e rfl
    refine ((insertInFile_spares regular txn (regular.filed found) row).and
      (insertInFile_tidies txn entry.file table row e regular.tidy)).bind ?_ fun _ _ failed => failed.1.1
    rintro location e₁ ⟨⟨spared, reserved⟩, orderly⟩
    have regular₁ := spared.regular_of_tidy regular orderly.tidy
    refine (markDirty_spares regular₁ txn (reserved location rfl)).bind ?_ fun _ _ later => spared.trans later
    intro _ e₂ later
    exact .pure (spared.trans later)
  refine ((insert_tidies txn table row e regular.tidy).and spares).mono ?_
  rintro answer e' ⟨orderly, spared⟩
  exact ⟨spared.regular_of_tidy regular orderly.tidy, spared⟩

theorem deleteInFile_spares (file : FileNo) (table : TableId) (row : RowId) :
    Ensures (deleteInFile txn file table (some row)) e fun answer e' => Spared txn e e' ∧
      ∀ p, answer = .ok p → Reserved txn e' p := by
  refine .get_bind ?_
  by_cases outside : row.page.table ≠ table ∨ e.pagesOf file ≤ row.page.number
  · rw [if_pos outside]
    exact .throw ⟨.refl, by simp⟩
  · rw [if_neg outside]
    refine (getPage_exclusive regular txn row.page).bind ?_ ?_
    · rintro page e₁ ⟨regular₁, spared, gotten⟩
      obtain ⟨id, resident, looked, alone, reserved⟩ := gotten page rfl
      cases done : page.delete (some row) with
      | error fault => exact .throw ⟨spared, by simp⟩
      | ok changed =>
        obtain rfl := Page.delete_eq_ok done
        have replaced := Spared.spared_insert (spared.undisputed_mono alone)
          (show (page.putAt row.slot none).id = row.page from id) fun other dirty => .inr ⟨page, resident, dirty⟩
        refine ⟨spared.trans replaced, ?_⟩
        intro p same
        cases same
        exact reserved
    · rintro fault e₁ ⟨-, spared, -⟩
      exact ⟨spared, by simp⟩

theorem delete_spares (row : Option RowId) :
    Ensures (delete txn row) e fun _ e' => e'.Regular ∧ Spared txn e e' := by
  have spares : Ensures (delete txn row) e fun _ e' => Spared txn e e' := by
    cases row with
    | none => exact .throw .refl
    | some row =>
      refine (resolve_ensures row.page.table).bind ?_ fun _ _ same => same.1 ▸ .refl
      rintro entry e ⟨rfl, -⟩
      refine ((deleteInFile_spares regular txn entry.file row.page.table row).and
        (deleteInFile_tidies txn entry.file row.page.table row e regular.tidy)).bind ?_
          fun _ _ failed => failed.1.1
      rintro p e₁ ⟨⟨spared, reserved⟩, orderly⟩
      have regular₁ := spared.regular_of_tidy regular orderly.tidy
      refine (markDirty_spares regular₁ txn (reserved p rfl)).bind ?_ fun _ _ later => spared.trans later
      intro _ e₂ later
      exact .pure (spared.trans later)
  refine ((delete_tidies txn row e regular.tidy).and spares).mono ?_
  rintro answer e' ⟨orderly, spared⟩
  exact ⟨spared.regular_of_tidy regular orderly.tidy, spared⟩

end Rows

end Engine

/-- Reading a file through is nothing but looking at pages. -/
theorem FileScan.take_looks {e : Engine} (regular : e.Regular) (s : FileScan) (n : Nat) :
    Ensures (take n) (s, e) fun _ left => left.2.Regular ∧ Engine.Looked s.txn e left.2 := by
  refine (@take_keeps (fun e' => e'.Regular ∧ Engine.Looked s.txn e e') (fun _ _ => True) s
    (e.pagesOf s.file) ?_ ?_ e ⟨regular, .refl⟩ s ⟨rfl, rfl, rfl⟩ n).mono ?_
  · exact fun _ kept => kept.2.lengths s.file
  · rintro e₁ number ⟨regular₁, looked⟩ -
    refine (Engine.getPage_looks regular₁ s.txn ⟨s.table, number⟩ .shared).mono ?_
    rintro (fault | page) e₂ ⟨regular₂, looked₂, -⟩
    · exact ⟨⟨regular₂, looked.trans looked₂⟩, trivial⟩
    · exact ⟨regular₂, looked.trans looked₂⟩
  · rintro (fault | taken) left kept
    · exact kept.elim
    · exact kept.2.1

namespace Engine

/-! ### The end of a transaction -/

/-- Pages that held changes of the transaction have been written or dropped, and nothing else. -/
structure Cleared (txn : TxnId) (e e' : Engine) : Prop extends SameLengths e e' where
  copies : ∀ {p page}, e.resident.get? p = some page → page.dirtier ≠ some txn →
    e'.resident.get? p = some page
  changes : ∀ {p page other}, e'.resident.get? p = some page → page.dirtier = some other →
    e.resident.get? p = some page

/-- The transaction has ended: its locks are gone. -/
structure Parted (txn : TxnId) (e e' : Engine) : Prop extends Cleared txn e e' where
  locks : e'.locks = e.locks.releaseAll txn

namespace Cleared

variable {txn : TxnId} {e e' e'' : Engine}

theorem of_resident (same : SameLengths e e') (resident : e'.resident = e.resident) : Cleared txn e e' where
  toSameLengths := same
  copies here _ := by
    rw [resident]
    exact here
  changes here _ := by
    rw [resident] at here
    exact here

theorem refl : Cleared txn e e := .of_resident .refl rfl

theorem trans (first : Cleared txn e e') (second : Cleared txn e' e'') : Cleared txn e e'' where
  toSameLengths := first.toSameLengths.trans second.toSameLengths
  copies here others := second.copies (first.copies here others) others
  changes here dirty := first.changes (second.changes here dirty) dirty

theorem parted_releaseAll (cleared : Cleared txn e e') (locks : e'.locks = e.locks) :
    Parted txn e (e'.releaseAll txn) where
  toSameLengths := cleared.toSameLengths.trans (.of_files rfl rfl)
  copies := cleared.copies
  changes := cleared.changes
  locks := congrArg (LockTable.releaseAll · txn) locks

end Cleared

theorem Parted.regular_of_tidy {txn : TxnId} {e e' : Engine} (parted : Parted txn e e') (regular : e.Regular)
    (tidy : e'.Tidy) : e'.Regular := by
  refine parted.toSameFiling.regular_of_tidy regular tidy ?_
  rw [parted.locks]
  exact regular.compatible.compatible_releaseAll txn

theorem mem_dirtyPages_iff_resident (e : Engine) (txn : TxnId) (p : PageId) :
    p ∈ e.dirtyPages txn ↔ ∃ page, e.resident.get? p = some page ∧ page.dirtier = some txn := by
  rw [dirtyPages, mem_sorted_iff, FinMap.mem_keys_iff]
  apply exists_congr
  intro page
  rw [FinMap.get?_filter, Option.filter_eq_some_iff, decide_eq_true_eq]

theorem dirtier_of_mem_dirtyPages {e : Engine} {txn : TxnId} {p : PageId} {page : Page}
    (among : p ∈ e.dirtyPages txn) (here : e.resident.get? p = some page) : page.dirtier = some txn := by
  obtain ⟨copy, same, dirty⟩ := (e.mem_dirtyPages_iff_resident txn p).mp among
  rw [here] at same
  cases same
  exact dirty

/-- Some page in memory holds changes of the transaction. -/
def Unsettled (txn : TxnId) (e : Engine) : Prop :=
  ∃ p page, e.resident.get? p = some page ∧ page.dirtier = some txn

theorem Cleared.not_unsettled_of_clean {txn : TxnId} {e e' : Engine} (cleared : Cleared txn e e')
    (clean : ∀ p ∈ e.dirtyPages txn, ∀ page, e'.resident.get? p = some page → page.dirtier = none) :
    ¬Unsettled txn e' := by
  rintro ⟨p, page, here, dirty⟩
  have among := (e.mem_dirtyPages_iff_resident txn p).mpr ⟨page, cleared.changes here dirty, dirty⟩
  exact absurd ((clean p among page here).symm.trans dirty) (by simp)

theorem writePage_writes (file : FileNo) (page : Page) (e : Engine) :
    Ensures (writePage file page) e fun _ e' =>
      SameLengths e e' ∧ e'.locks = e.locks ∧ e'.resident = e.resident := by
  refine (openFile_opens file page.id.table e).bind ?_ fun _ _ ⟨same, _⟩ => same ▸ ⟨.refl, rfl, rfl⟩
  rintro f e ⟨rfl, opened⟩
  have opened := opened f rfl
  refine .get_bind ?_
  cases done : f.write (e.contentsOf f) page with
  | error fault => exact ⟨.refl, rfl, rfl⟩
  | ok written =>
    obtain ⟨contents, f'⟩ := written
    obtain ⟨-, -, -, rfl⟩ := TableFile.write_eq_ok_iff.mp done
    have files : ({ e.setFile file { f with writes := f.writes + 1 } with
        volume := e.volume.put f.name contents } : Engine).files =
          e.files.set file { f with writes := f.writes + 1 } := rfl
    exact ⟨.of_set opened files rfl rfl rfl, rfl, rfl⟩

section Ending

variable {e : Engine} (tidy : e.Tidy) (txn : TxnId)

include tidy

theorem flush_clears {p : PageId}
    (own : ∀ page other, e.resident.get? p = some page → page.dirtier = some other → other = txn) :
    Ensures (flush p) e fun answer e' => Cleared txn e e' ∧ e'.locks = e.locks ∧
      (answer = .ok () → ∀ page, e'.resident.get? p = some page → page.dirtier = none) ∧
      ∀ fault, answer = .error fault → Unsettled txn e' := by
  rcases e.flush_cases p with ⟨same, clean⟩ | ⟨page, other, resident, dirtier, same⟩
  · rw [Ensures, same]
    exact ⟨.refl, rfl, fun _ => clean, by simp⟩
  · obtain rfl := own page other resident dirtier
    have id : page.id = p := tidy.own resident
    refine .congr same ((resolve_ensures p.table).bind ?_ ?_)
    · rintro entry e ⟨rfl, -⟩
      refine (writePage_writes entry.file page e).bind ?_ ?_
      · rintro _ e₁ ⟨lengths, locks, same⟩
        have inserted : ∀ q, (e₁.resident.insert page.markClean.id page.markClean).get? q =
            if q = p then some page.markClean else e.resident.get? q := by
          intro q
          rw [FinMap.get?_insert, same, show page.markClean.id = p from id]
        refine ⟨⟨lengths.trans (.of_files rfl rfl), ?_, ?_⟩, locks, ?_, by simp⟩
        · intro q copy here others
          refine (inserted q).trans ((if_neg ?_).trans here)
          rintro rfl
          rw [resident] at here
          cases here
          exact others dirtier
        · intro q copy other here dirty
          have here := (inserted q).symm.trans here
          split at here
          · cases here
            exact absurd dirty (by simp [Page.markClean])
          · exact here
        · intro _ copy here
          have here := (inserted p).symm.trans here
          rw [if_pos rfl] at here
          cases here
          rfl
      · rintro fault e₁ ⟨lengths, locks, same⟩
        refine ⟨.of_resident lengths same, locks, by simp, fun _ _ => ⟨p, page, ?_, dirtier⟩⟩
        rw [same]
        exact resident
    · rintro fault e ⟨rfl, -⟩
      exact ⟨.refl, rfl, by simp, fun _ _ => ⟨p, page, resident, dirtier⟩⟩

theorem flushEach_clears {pages : List PageId}
    (own : ∀ p ∈ pages, ∀ page other, e.resident.get? p = some page → page.dirtier = some other → other = txn) :
    Ensures (flushEach pages) e fun answer e' => Cleared txn e e' ∧ e'.locks = e.locks ∧
      (answer = .ok () → ∀ p ∈ pages, ∀ page, e'.resident.get? p = some page → page.dirtier = none) ∧
      ∀ fault, answer = .error fault → Unsettled txn e' := by
  induction pages generalizing e with
  | nil => exact .pure ⟨.refl, rfl, by simp, by simp⟩
  | cons p rest ih =>
    refine ((flush_tidies p e tidy).and (flush_clears tidy txn (own p List.mem_cons_self))).bind ?_ ?_
    · rintro _ e₁ ⟨orderly, cleared, locks, clean, -⟩
      refine (ih orderly.tidy ?_).mono ?_
      · intro q later page other here dirty
        exact own q (List.mem_cons_of_mem _ later) page other (cleared.changes here dirty) dirty
      · rintro answer e₂ ⟨cleared₂, locks₂, clean₂, left⟩
        refine ⟨cleared.trans cleared₂, locks₂.trans locks, ?_, left⟩
        intro done q among page here
        rcases List.mem_cons.mp among with rfl | later
        · cases dirtier : page.dirtier with
          | none => rfl
          | some other =>
            have before := clean rfl page (cleared₂.changes here dirtier)
            exact absurd (before.symm.trans dirtier) (by simp)
        · exact clean₂ done q later page here
    · rintro fault e₁ ⟨-, cleared, locks, -, left⟩
      exact ⟨cleared, locks, by simp, left⟩

omit tidy in
theorem ending_ensures {α : Type} {act : Action α} {post : Except Fault α → Engine → Prop}
    (ensured : Ensures act e fun answer e' => post answer (e'.releaseAll txn)) :
    Ensures (ending txn act) e post := by
  rw [Ensures, ending]
  cases result : act e with
  | ok a e' => exact ensured.of_ok result
  | error fault e' => exact ensured.of_error result

/-- A commit either writes all that the transaction has changed, or it fails and leaves some of it
in memory with nobody's lock. -/
theorem commit_parts : Ensures (commit txn) e fun answer e' => Parted txn e e' ∧
    (answer = .ok () → ¬Unsettled txn e') ∧ ∀ fault, answer = .error fault → Unsettled txn e' := by
  have own : ∀ p ∈ e.dirtyPages txn, ∀ page other, e.resident.get? p = some page →
      page.dirtier = some other → other = txn := by
    intro p among page other here dirty
    rw [dirtier_of_mem_dirtyPages among here] at dirty
    exact (Option.some.inj dirty).symm
  have flushing : Ensures (flushPages txn) e fun answer e' => Cleared txn e e' ∧ e'.locks = e.locks ∧
      ((∃ count, answer = .ok count) → ¬Unsettled txn e') ∧ ∀ fault, answer = .error fault → Unsettled txn e' := by
    refine .get_bind ((flushEach_clears tidy txn own).bind ?_ ?_)
    · rintro _ e₁ ⟨cleared, locks, clean, -⟩
      exact .pure ⟨cleared, locks, fun _ => cleared.not_unsettled_of_clean (clean rfl), by simp⟩
    · rintro fault e₁ ⟨cleared, locks, -, left⟩
      exact ⟨cleared, locks, by simp, fun _ _ => left fault rfl⟩
  refine ending_ensures txn (flushing.bind ?_ ?_)
  · rintro count e₁ ⟨cleared, locks, settled, -⟩
    exact .pure ⟨cleared.parted_releaseAll locks, fun _ => settled ⟨count, rfl⟩, by simp⟩
  · rintro fault e₁ ⟨cleared, locks, -, left⟩
    exact ⟨cleared.parted_releaseAll locks, by simp, fun _ _ => left fault rfl⟩

omit tidy in
theorem discardEach_clears {pages : List PageId}
    (own : ∀ p ∈ pages, ∀ page, e.resident.get? p = some page → page.dirtier = some txn) :
    Ensures (discardEach pages) e fun answer e' => answer = .ok () ∧ Cleared txn e e' ∧ e'.locks = e.locks ∧
      ∀ p ∈ pages, ∀ page, e'.resident.get? p = some page → page.dirtier = none := by
  induction pages generalizing e with
  | nil => exact .pure ⟨rfl, .refl, rfl, by simp⟩
  | cons p rest ih =>
    have erased : ∀ q, (e.dropped p).resident.get? q = if q = p then none else e.resident.get? q :=
      FinMap.get?_erase e.resident p
    have dropped : Cleared txn e (e.dropped p) := by
      refine ⟨.of_files rfl rfl, ?_, ?_⟩
      · intro q page here others
        rw [erased, if_neg]
        · exact here
        · rintro rfl
          exact others (own q List.mem_cons_self page here)
      · intro q page other here _
        rw [erased] at here
        split at here
        · exact absurd here (by simp)
        · exact here
    have step : discardEach (p :: rest) e = discardEach rest (e.dropped p) := rfl
    refine ((ih ?_).mono ?_).congr step
    · intro q later page here
      rw [erased] at here
      split at here
      · exact absurd here (by simp)
      · exact own q (List.mem_cons_of_mem _ later) page here
    · rintro answer e' ⟨done, cleared, locks, clean⟩
      refine ⟨done, dropped.trans cleared, locks, ?_⟩
      intro q among page here
      rcases List.mem_cons.mp among with rfl | later
      · cases dirtier : page.dirtier with
        | none => rfl
        | some other =>
          have before := cleared.changes here dirtier
          rw [erased, if_pos rfl] at before
          exact absurd before (by simp)
      · exact clean q later page here

omit tidy in
theorem abort_parts : Ensures (abort txn) e fun answer e' =>
    answer = .ok () ∧ Parted txn e e' ∧ ¬Unsettled txn e' := by
  refine ending_ensures txn (.get_bind ((discardEach_clears txn ?_).mono ?_))
  · exact fun p among page here => dirtier_of_mem_dirtyPages among here
  · rintro answer e' ⟨done, cleared, locks, clean⟩
    exact ⟨done, cleared.parted_releaseAll locks, cleared.not_unsettled_of_clean clean⟩

end Ending

/-! ### Another table -/

/-- A table may be registered in another's place; nobody's pages and nobody's locks are touched. -/
theorem createTable_spares {e : Engine} (regular : e.Regular) (path : String) (schema : Schema)
    (name : String) : Ensures (createTable path schema name) e fun _ e' =>
      e'.Regular ∧ e'.resident = e.resident ∧ e'.locks = e.locks := by
  rw [Ensures, createTable]
  cases checkPageSize e.settings.pageSize schema with
  | error fault => exact ⟨regular, rfl, rfl⟩
  | ok _ =>
    cases e.volume.locate path with
    | error cause => exact ⟨regular, rfl, rfl⟩
    | ok fileName =>
      have tidy := regular.tidy
      refine ⟨⟨⟨tidy.own, tidy.tracked, tidy.bounded⟩, regular.compatible, ?_⟩, rfl, rfl⟩
      intro table entry found
      rcases Catalog.find?_register_cases _ _ _ found with ⟨rfl, rfl⟩ | before
      · rw [tableOf?, List.getElem?_concat_length]
        rfl
      · have known := regular.filed before
        obtain ⟨f, opened, same⟩ := Option.map_eq_some_iff.mp known
        obtain ⟨inside, -⟩ := List.getElem?_eq_some_iff.mp opened
        rw [tableOf?, List.getElem?_append_left inside]
        exact known

end Engine

end RowStore
