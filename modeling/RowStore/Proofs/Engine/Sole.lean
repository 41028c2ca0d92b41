import RowStore.Proofs.Engine.Glances
import RowStore.Proofs.PartialCommit
/-!
# Tables that one transaction has to itself

Somebody who uses other tables may take a page of these out of memory, if it holds no changes. He takes no locks on
them, brings none of their pages in, changes none, and writes none of their files. So the transaction that has them to
itself finds what it would have found without him, as long as the pages without changes are what their files have.
-/

namespace RowStore

namespace Engine

/-- What is changed of these tables the transaction has changed. -/
def Ours (mine : TableId → Prop) (txn : TxnId) (e : Engine) : Prop :=
  ∀ p page other, mine p.table → e.resident.get? p = some page → page.dirtier = some other → other = txn

/-- Nobody else has locked or changed a page of these tables. -/
structure Sole (mine : TableId → Prop) (txn : TxnId) (e : Engine) : Prop extends Sturdy e where
  alone : ∀ p holder, mine p.table → holder ≠ txn → e.locks.mode? holder p = none
  changed : ∀ p page other, mine p.table → e.resident.get? p = some page → page.dirtier = some other → other = txn

/-- Besides, the transaction has changed nothing else, and what is in memory without changes is what the file has. -/
structure Running (mine : TableId → Prop) (txn : TxnId) (e : Engine) : Prop extends Sole mine txn e where
  clean : ∀ p page, mine p.table → e.resident.get? p = some page → page.dirtier = none → e.stored? p = some page
  within : ∀ p page, e.resident.get? p = some page → page.dirtier = some txn → mine p.table

/-- The files of these tables are the same, and those that are no table's. -/
structure SameBytes (mine : TableId → Prop) (e e' : Engine) : Prop where
  pageSize : e'.settings.pageSize = e.settings.pageSize
  catalog : e'.catalog = e.catalog
  tables : e'.volume.tables = e.volume.tables
  contents : ∀ name, (∀ table, e.volume.number? name = some table → mine table) →
    e'.volume.contents name = e.volume.contents name

/-- Pages of these tables may have been given up if they had no changes, and nothing else has happened to them, nor has
a page become changed by the transaction. -/
structure Untouched (mine : TableId → Prop) (txn : TxnId) (e e' : Engine) : Prop extends SameBytes mine e e' where
  copies : ∀ p, mine p.table → e'.resident.get? p = e.resident.get? p ∨ e.Unchanged p ∧ e'.resident.get? p = none
  locks : ∀ p, mine p.table → e'.locks.mode? txn p = e.locks.mode? txn p
  free : ∀ p holder, mine p.table → e.locks.mode? holder p = none → e'.locks.mode? holder p = none
  changes : ∀ p page, e'.resident.get? p = some page → page.dirtier = some txn → e.resident.get? p = some page

variable {mine : TableId → Prop} {txn : TxnId} {e e' e'' : Engine}

/-! ### The same files -/

namespace SameBytes

theorem refl : SameBytes mine e e := ⟨rfl, rfl, rfl, fun _ _ => rfl⟩

theorem number?_eq (same : SameBytes mine e e') (name : String) : e'.volume.number? name = e.volume.number? name := by
  rw [Volume.number?, Volume.number?, same.tables]

theorem trans (first : SameBytes mine e e') (second : SameBytes mine e' e'') : SameBytes mine e e'' where
  pageSize := second.pageSize.trans first.pageSize
  catalog := second.catalog.trans first.catalog
  tables := second.tables.trans first.tables
  contents name own :=
    (second.contents name fun table numbered => own table ((first.number?_eq name).symm.trans numbered)).trans
      (first.contents name own)

theorem symm (same : SameBytes mine e e') : SameBytes mine e' e where
  pageSize := same.pageSize.symm
  catalog := same.catalog.symm
  tables := same.tables.symm
  contents name own :=
    (same.contents name fun table numbered => own table ((same.number?_eq name).trans numbered)).symm

variable (same : SameBytes mine e e') (shelved : e.Shelved) (shelved' : e'.Shelved)

include same shelved shelved'

/-- The file of a table is the same but for how often it has been read and written. -/
theorem contentsOf_eq {table : TableId} (own : mine table) {f : TableFile} (file : e.fileOf? table = some f) :
    (∃ reads writes, e'.fileOf? table = some { f with reads, writes }) ∧ e'.contentsOf f = e.contentsOf f := by
  have filed := shelved.filed_of_fileOf? file
  obtain ⟨entry, found, columns⟩ := filed.schema
  rw [← same.catalog] at found
  obtain ⟨g, opened, -⟩ := shelved'.current found
  have file' : e'.fileOf? table = some g.unread := (e'.fileOf?_eq_some_iff _ _).mpr ⟨entry, g, found, opened, rfl⟩
  have filed' := shelved'.filed_of_fileOf? file'
  obtain ⟨entry', found', columns'⟩ := filed'.schema
  cases found.symm.trans found'
  have contents : e'.contentsOf f = e.contentsOf f :=
    same.contents f.name fun other numbered => Option.some.inj (filed.number.symm.trans numbered) ▸ own
  have name : g.unread.name = f.name :=
    Volume.number?_inj filed'.number ((same.number?_eq f.name).trans filed.number)
  have pages : g.unread.pages = f.pages := by
    rw [filed'.pages, filed.pages, name, extent, extent, same.pageSize]
    exact congrArg (·.length / _) contents
  refine ⟨⟨g.unread.reads, g.unread.writes, file'.trans (congrArg some ?_)⟩, contents⟩
  have table' : g.unread.table = f.table := filed'.own.trans filed.own.symm
  have schema : g.unread.schema = f.schema := columns'.symm.trans columns
  have pageSize : g.unread.pageSize = f.pageSize := by rw [filed'.pageSize, filed.pageSize, same.pageSize]
  -- nothing is left in which the two records may differ but the counts
  generalize g.unread = g' at name pages table' schema pageSize
  cases g'
  cases name
  cases pages
  cases table'
  cases schema
  cases pageSize
  rfl

theorem file_none {table : TableId} (none : e.fileOf? table = none) : e'.fileOf? table = Option.none := by
  by_contra some
  obtain ⟨f, file⟩ := Option.ne_none_iff_exists'.mp some
  obtain ⟨entry, found, -⟩ := (shelved'.filed_of_fileOf? file).schema
  rw [same.catalog] at found
  obtain ⟨g, opened, -⟩ := shelved.current found
  have file' := (e.fileOf?_eq_some_iff table g.unread).mpr ⟨entry, g, found, opened, rfl⟩
  exact absurd (none.symm.trans file') (by simp)

theorem stored?_eq_of_own {p : PageId} (own : mine p.table) : e'.stored? p = e.stored? p := by
  cases file : e.fileOf? p.table with
  | none =>
    rw [Engine.stored?, Engine.stored?, file, same.file_none shelved shelved' file, Option.bind_none, Option.bind_none]
  | some f =>
    obtain ⟨⟨reads, writes, file'⟩, contents⟩ := same.contentsOf_eq shelved shelved' own file
    rw [shelved.stored?_eq file, shelved'.stored?_eq file', pageBytes, pageBytes, same.pageSize]
    change (if p.number < f.pages then Page.decode? p f.schema ((e'.contentsOf f).region _ _) else none) = _
    rw [contents]
    rfl

end SameBytes

/-! ### Nobody else has touched them -/

namespace Untouched

theorem refl : Untouched mine txn e e := ⟨.refl, fun _ _ => .inl rfl, fun _ _ => rfl, fun _ _ _ free => free,
  fun _ _ here _ => here⟩

theorem trans (first : Untouched mine txn e e') (second : Untouched mine txn e' e'') : Untouched mine txn e e'' where
  toSameBytes := first.toSameBytes.trans second.toSameBytes
  locks p own := (second.locks p own).trans (first.locks p own)
  free p holder own free := second.free p holder own (first.free p holder own free)
  changes p page here dirty := first.changes p page (second.changes p page here dirty) dirty
  copies p own := by
    rcases first.copies p own with same | ⟨unchanged, left⟩
    · rcases second.copies p own with same' | ⟨unchanged, left⟩
      · exact .inl (same'.trans same)
      · exact .inr ⟨fun page here => unchanged page (same.trans here), left⟩
    · refine .inr ⟨unchanged, ?_⟩
      rcases second.copies p own with same' | ⟨-, left'⟩
      · exact same'.trans left
      · exact left'

variable (untouched : Untouched mine txn e e')

include untouched

theorem ours_mono {owner : TxnId} (ours : Ours mine owner e) : Ours mine owner e' := by
  intro p page other own here dirty
  rcases untouched.copies p own with same | ⟨-, left⟩
  · exact ours p page other own (same.symm.trans here) dirty
  · exact absurd (left.symm.trans here) (by simp)

theorem sole_mono (sole : Sole mine txn e) (sturdy : e'.Sturdy) : Sole mine txn e' where
  toSturdy := sturdy
  alone p holder own differs := untouched.free p holder own (sole.alone p holder own differs)
  changed := untouched.ours_mono sole.changed

section

variable (shelved : e.Shelved) (shelved' : e'.Shelved) {p : PageId} (own : mine p.table)
  (clean : ∀ page, e.resident.get? p = some page → page.dirtier = none → e.stored? p = some page)

include shelved shelved' own clean

theorem stays_clean (page : Page) (here : e'.resident.get? p = some page) (unchanged : page.dirtier = none) :
    e'.stored? p = some page := by
  rw [untouched.stored?_eq_of_own shelved shelved' own]
  rcases untouched.copies p own with same | ⟨-, left⟩
  · exact clean page (same.symm.trans here) unchanged
  · exact absurd (left.symm.trans here) (by simp)

theorem view?_of_clean : e'.view? p = e.view? p := by
  have stored := untouched.stored?_eq_of_own shelved shelved' own
  rcases untouched.copies p own with same | ⟨unchanged, left⟩
  · rw [Engine.view?, Engine.view?, same, stored]
  · rw [view?_of_absent left, stored]
    cases here : e.resident.get? p with
    | none => rw [view?_of_absent here]
    | some page => rw [view?_of_resident here, clean page here (unchanged page here)]

end

variable (before : Running mine txn e) (sturdy : e'.Sturdy)

include before sturdy

theorem running_after : Running mine txn e' where
  toSole := untouched.sole_mono before.toSole sturdy
  within p page here dirty := before.within p page (untouched.changes p page here dirty) dirty
  clean _ _ own := untouched.stays_clean before.shelved sturdy.shelved own (fun _ => before.clean _ _ own) _

theorem view?_eq_of_own {p : PageId} (own : mine p.table) : e'.view? p = e.view? p :=
  untouched.view?_of_clean before.shelved sturdy.shelved own fun _ => before.clean _ _ own

end Untouched

/-! ### What somebody else does -/

section Others

variable {other : TxnId} {theirs : TableId → Prop} (beside : ∀ table, theirs table → ¬mine table)

include beside

theorem Glanced.to_untouched (glanced : Glanced theirs e e') : Untouched mine txn e e' where
  pageSize := glanced.pageSize
  catalog := glanced.catalog
  tables := congrArg Volume.tables glanced.volume
  contents name _ := by rw [glanced.volume]
  locks p own := glanced.locks p txn fun others => beside _ others own
  free p holder own free := (glanced.locks p holder fun others => beside _ others own).trans free
  copies p own := by
    rcases glanced.copies p with same | ⟨unchanged, left | ⟨others, -⟩⟩
    · exact .inl same
    · exact .inr ⟨unchanged, left⟩
    · exact absurd own (beside _ others)
  changes p page here dirty := (glanced.copies p).held_changed here dirty

theorem Lengthened.untouched_of_others {table : TableId} {f : TableFile} (longer : Lengthened table f e e')
    (shelved : e.Shelved) (others : theirs table) : Untouched mine txn e e' where
  pageSize := longer.pageSize
  catalog := longer.catalog
  tables := longer.tables
  locks p _ := by rw [longer.locks]
  free p holder _ free := by rw [longer.locks, free]
  copies p _ := .inl (by rw [longer.resident])
  changes p page here _ := by rw [← here, longer.resident]
  contents name own := by
    rw [longer.contents, if_neg]
    rintro rfl
    exact beside table others (own table (shelved.filed_of_fileOf? longer.file).number)

theorem Searched.untouched_of_shelved (searched : Searched theirs e e') (shelved : e.Shelved) :
    Untouched mine txn e e' := by
  cases searched with
  | among glanced => exact glanced.to_untouched beside
  | beyond others f e₀ e₁ before longer after =>
    exact ((before.to_untouched beside).trans (longer.untouched_of_others beside (shelved.shelved_of_glanced before)
      others)).trans
      (after.to_untouched beside)

theorem Rewritten.untouched_of_ne {p : PageId} (rewritten : Rewritten other p e e') (differs : other ≠ txn)
    (others : theirs p.table) : Untouched mine txn e e' where
  pageSize := rewritten.pageSize
  catalog := rewritten.catalog
  tables := congrArg Volume.tables rewritten.volume
  contents name _ := by rw [rewritten.volume]
  locks p _ := by rw [rewritten.locks]
  free p holder _ free := by rw [rewritten.locks, free]
  copies q own := by
    obtain ⟨page, changed, -, -, -, copies⟩ := rewritten.copies
    refine .inl ((copies q).trans (if_neg ?_))
    rintro rfl
    exact beside _ others own
  changes q copy here dirty := by
    obtain ⟨page, changed, -, -, dirtier, copies⟩ := rewritten.copies
    rw [copies] at here
    split at here
    · cases here
      exact absurd (Option.some.inj (dirtier.symm.trans dirty)) differs
    · exact here

theorem Stepped.untouched_of_ne (stepped : Stepped theirs other e e') (shelved : e.Shelved) (differs : other ≠ txn) :
    Untouched mine txn e e' := by
  obtain ⟨e₁, searched, rfl | ⟨p, others, rewritten⟩⟩ := stepped
  · exact searched.untouched_of_shelved beside shelved
  · exact (searched.untouched_of_shelved beside shelved).trans (rewritten.untouched_of_ne beside differs others)

end Others

section Ended

theorem free_of_releaseAll (locks : LockTable) (other : TxnId) {p : PageId} {holder : TxnId}
    (free : locks.mode? holder p = none) : (locks.releaseAll other).mode? holder p = none := by
  rw [LockTable.mode?_releaseAll, free, ite_self]

variable (sturdy : e.Sturdy) (ours : Ours mine txn e) {other : TxnId} (differs : other ≠ txn)

include ours differs in
theorem Ours.not_mine_of_dirty {p : PageId} (among : p ∈ e.dirtyPages other) : ¬mine p.table := by
  obtain ⟨page, here, dirty⟩ := (e.mem_dirtyPages_iff_resident other p).mp among
  exact fun own => differs (ours p page other own here dirty)

include differs in
/-- The end of another transaction, where the files and the pages of these tables in memory stay as they are. -/
theorem SameBytes.untouched_of_ended (same : SameBytes mine e e') (locks : e'.locks = e.locks.releaseAll other)
    (resident : ∀ p, mine p.table → e'.resident.get? p = e.resident.get? p)
    (changes : ∀ p page, e'.resident.get? p = some page → page.dirtier = some txn → e.resident.get? p = some page) :
    Untouched mine txn e e' where
  toSameBytes := same
  copies p own := .inl (resident p own)
  locks p _ := by rw [locks, LockTable.mode?_releaseAll, if_neg differs.symm]
  free p holder _ free := by
    rw [locks]
    exact free_of_releaseAll _ _ free
  changes := changes

include sturdy ours differs

theorem commit_untouched : Ensures (commit other) e fun _ e' => Untouched mine txn e e' := by
  refine .congr (commit_eq other e) ((commitIn_saves sturdy.shelved sturdy.tidy (.refl _)).mono ?_)
  rintro answer e' ⟨-, saved⟩
  have others : ∀ p ∈ (e.dirtyPages other).takeWhile e.writable, ¬mine p.table :=
    fun p among => ours.not_mine_of_dirty differs ((List.takeWhile_sublist _).mem among)
  have same : SameBytes mine e e' := by
    refine ⟨congrArg Settings.pageSize saved.settings, saved.catalog, saved.numbers, fun name own => ?_⟩
    refine List.ext_getElem? fun i => saved.others name i fun p among numbered => ?_
    exact absurd (own p.table numbered) (others p among)
  refine same.untouched_of_ended differs saved.locks ?_ ?_
  · intro p own
    exact (saved.resident p).trans (if_neg fun among => others p among own)
  · intro p page here dirty
    rw [saved.resident] at here
    split at here
    · obtain ⟨before, -, rfl⟩ := Option.map_eq_some_iff.mp here
      exact absurd dirty (by simp [Page.markClean])
    · exact here

theorem abort_untouched : Ensures (abort other) e fun _ e' => Untouched mine txn e e' := by
  obtain ⟨e', done, settings, volume, resident⟩ := abort_drops other e
  have locks := ((abort_parts other).of_ok done).2.1.locks
  have catalog := catalog_of_effects ((abort_unfolds other e sturdy.tidy).of_ok done).2
  rw [Ensures, done]
  have same : SameBytes mine e e' :=
    ⟨congrArg Settings.pageSize settings, catalog, congrArg Volume.tables volume, fun name _ => by rw [volume]⟩
  refine same.untouched_of_ended differs locks ?_ ?_
  · intro p own
    exact (resident p).trans (if_neg fun among => ours.not_mine_of_dirty differs among own)
  · intro p page here dirty
    rw [resident] at here
    split at here
    · exact absurd here (by simp)
    · exact here

end Ended

end Engine

open Engine

/-- Whatever another transaction does with other tables, it leaves these alone. If it ends, it must not have changed
them. -/
theorem Op.act_untouched {mine : TableId → Prop} {txn : TxnId} {e : Engine} (sturdy : e.Sturdy) (op : Op)
    (ours : op.ends = true → Ours mine txn e) (differs : op.txn ≠ txn)
    (beside : ∀ table, op.table? = some table → ¬mine table) :
    Ensures op.act e fun _ e' => e'.Sturdy ∧ Untouched mine txn e e' := by
  have untouched : Ensures op.act e fun _ e' => Untouched mine txn e e' := by
    cases closes : op.ends with
    | false =>
      have stepped : Ensures op.act e fun _ e' => Stepped (fun table => ¬mine table) op.txn e e' :=
        op.act_steps sturdy beside closes
      exact stepped.mono fun _ _ stepped => stepped.untouched_of_ne (fun _ others => others) sturdy.shelved differs
    | true =>
      obtain ⟨other, rfl | rfl⟩ := eq_of_ends closes
      · exact (commit_untouched sturdy (ours rfl) differs).bind (fun _ _ done => .pure done) fun _ _ failed => failed
      · exact (abort_untouched sturdy (ours rfl) differs).bind (fun _ _ done => .pure done) fun _ _ failed => failed
  refine ((op.act_unfolds e sturdy.tidy).and untouched).mono ?_
  rintro answer e' ⟨⟨tidy, effects⟩, untouched⟩
  exact ⟨sturdy.of_effects tidy effects, untouched⟩

end RowStore
