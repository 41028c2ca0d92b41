import RowStore.Proofs.Engine.Sole
import RowStore.Proofs.FailedWrites
import RowStore.Proofs.Filling
/-!
# A table whose copies in memory are what its file has

A page without changes may be given up at any time and read again, and a page with changes stays. So where the copies
that hold no changes are what the file has, it makes no difference to a reader of the table which of its pages are in
memory: looking for pages leaves its rows alone, and a write alters one row. What is in memory may differ from the file
only after somebody wrote a page with a text that is too long for its column.
-/

namespace RowStore

namespace Engine

/-- A page of the table in memory that holds no changes, but a value that is too long for its column, is what the file
has. -/
def Whole (e : Engine) (table : TableId) : Prop :=
  ∀ p page, p.table = table → e.resident.get? p = some page → page.dirtier = none → page.Overlong →
    e.stored? p = some page

/-- The table is registered, and memory and files are as they should be. -/
structure Listed (table : TableId) (entry : TableEntry) (e : Engine) : Prop where
  shelved : e.Shelved
  roomy : e.Roomy
  settled : e.Settled
  found : e.catalog.find? table = some entry

variable {table : TableId} {entry : TableEntry} {mine : TableId → Prop} {e e' : Engine} {p : PageId}

namespace Listed

variable (listed : Listed table entry e)

include listed

theorem sturdy_of_tidy (tidy : e.Tidy) : e.Sturdy := ⟨tidy, listed.shelved, listed.roomy⟩

/-! ### The pages of the table -/

theorem homed_of_view? {page : Page} (own : p.table = table) (seen : e.view? p = some page) :
    e.Homed p page ∧ page.schema = entry.schema ∧ p.number < e.pagesOf entry.file := by
  have known : e.Homed p page ∧ page.schema = entry.schema := by
    cases here : e.resident.get? p with
    | some copy =>
      rw [view?_of_resident here] at seen
      cases seen
      obtain ⟨entry', found, columns⟩ := listed.settled.known here
      cases found.symm.trans (own ▸ listed.found)
      exact ⟨listed.shelved.pages here, columns⟩
    | none =>
      rw [view?_of_absent here] at seen
      obtain ⟨entry', found, columns⟩ := listed.shelved.schema_of_stored seen
      cases found.symm.trans (own ▸ listed.found)
      exact ⟨listed.shelved.homed_of_stored seen, columns⟩
  obtain ⟨homed, columns⟩ := known
  obtain ⟨g, opened, table', -, whole⟩ := listed.shelved.current listed.found
  obtain ⟨name, numbered, inside⟩ := homed.inside
  have number := (listed.shelved.files opened).number
  rw [table', ← own] at number
  obtain rfl := Volume.number?_inj number numbered
  refine ⟨homed, columns, ?_⟩
  rw [pagesOf, opened]
  change p.number < g.pages
  rw [whole]
  exact inside

theorem within_rowMap : (e.rowMap table entry).Within where
  room := listed.roomy table entry listed.found
  place row values held := by
    obtain ⟨own, page, seen, used⟩ := (rowMap_rows_eq_some_iff ..).mp held
    obtain ⟨homed, columns, inside⟩ := listed.homed_of_view? own seen
    refine ((e.rowMap table entry).mem_places_iff row).mpr ⟨own, inside, ?_⟩
    change row.slot < Page.capacity e.settings.pageSize entry.schema
    rw [← columns, ← homed.size, ← homed.shaped.slots]
    by_contra past
    rw [page.valuesAt_eq_none_of_length_le row.slot (Nat.not_lt.mp past)] at used
    exact absurd used (by simp)

theorem rows_eq {number : Nat} {page : Page} (seen : e.view? ⟨table, number⟩ = some page) :
    page.rows = ((e.rowMap table entry).onPage number).map (Row.stored entry.schema) := by
  obtain ⟨homed, columns, -⟩ := listed.homed_of_view? (p := ⟨table, number⟩) rfl seen
  have rows := page.rows_of_contents (e.rowMap table entry).rows (by
    rw [homed.id]
    exact fun slot => (rowMap_rows e entry rfl seen slot).symm)
  rw [homed.shaped.slots, homed.size, homed.id, columns] at rows
  exact rows

/-! ### What a step leaves -/

theorem of_glanced (glanced : Glanced mine e e') : Listed table entry e' where
  shelved := listed.shelved.shelved_of_glanced glanced
  roomy := by
    rw [Roomy, glanced.catalog, glanced.pageSize]
    exact listed.roomy
  settled := listed.settled.settled_of_glanced listed.shelved glanced
  found := by
    rw [glanced.catalog]
    exact listed.found

theorem of_lengthened {other : TableId} {f : TableFile} (longer : Lengthened other f e e') : Listed table entry e' where
  shelved := longer.shelved
  roomy := by
    rw [Roomy, longer.catalog, longer.pageSize]
    exact listed.roomy
  settled := listed.settled.settled_of_lengthened listed.shelved longer
  found := by
    rw [longer.catalog]
    exact listed.found

theorem rows_of_lengthened {other : TableId} {f : TableFile} (longer : Lengthened other f e e') :
    (e'.rowMap table entry).rows = (e.rowMap table entry).rows := by
  funext row
  refine ite_congr rfl (fun _ => ?_) fun _ => rfl
  by_cases new : row.page = ⟨other, f.pages⟩
  · have absent := listed.shelved.absent_of_past longer.file (Nat.le_refl _)
    have unstored : e.stored? ⟨other, f.pages⟩ = none := by
      rw [listed.shelved.stored?_eq longer.file, if_neg (Nat.lt_irrefl _)]
    rw [new, view?_of_absent (longer.resident ▸ absent), view?_of_absent absent, longer.stored?, if_pos rfl, unstored]
    exact Page.valuesAt_blank ..
  · rw [Engine.view?, Engine.view?, longer.resident, longer.stored?, if_neg new]

theorem pages_of_lengthened {other : TableId} {f : TableFile} (longer : Lengthened other f e e') :
    e.pagesOf entry.file ≤ e'.pagesOf entry.file := by
  obtain ⟨g, opened, -⟩ := listed.shelved.current listed.found
  have file : e.fileOf? table = some g.unread :=
    (e.fileOf?_eq_some_iff _ _).mpr ⟨entry, g, listed.found, opened, rfl⟩
  have found' : e'.catalog.find? table = some entry := by rw [longer.catalog, listed.found]
  rw [pagesOf_of_fileOf? listed.found file]
  by_cases same : table = other
  · subst same
    cases file.symm.trans longer.file
    rw [pagesOf_of_fileOf? found' ((longer.fileOf? table).trans (if_pos rfl))]
    exact Nat.le_succ _
  · rw [pagesOf_of_fileOf? found' ((longer.fileOf? table).trans ((if_neg same).trans file))]

theorem of_filled {txn : TxnId} {row : RowId} {content : Option (List Value)} (filled : Filled txn row content e e')
    (shelved : e'.Shelved) : Listed table entry e' where
  shelved := shelved
  roomy := by
    rw [Roomy, filled.catalog, filled.pageSize]
    exact listed.roomy
  settled := listed.settled.settled_of_rewritten filled.to_rewritten
  found := by
    rw [filled.catalog]
    exact listed.found

/-! ### A scan of the table -/

omit listed in
/-- A scan finds the rows of the map as it is then, and what looking for pages keeps is kept. -/
theorem next_reads {kept : Engine → Prop} {passed : Nat → List Row → Prop} {s : FileScan} (file : s.file = entry.file)
    (own : s.table = table) (lists : ∀ e, kept e → e.Tidy ∧ Listed table entry e)
    (glances : ∀ e e', kept e → Glanced (fun _ => True) e e' → e'.Tidy → kept e')
    (reads : ∀ e number, kept e → number < e.pagesOf entry.file → passed number [] →
      passed (number + 1) (((e.rowMap table entry).onPage number).map (Row.stored entry.schema)))
    (keeps : kept e) (here : passed s.nextPage s.pending) :
    Ensures FileScan.next (s, e) (FileScan.Reads (fun e' => kept e' ∧ e'.pagesOf entry.file = e.pagesOf entry.file)
      passed (e.pagesOf entry.file) s) := by
  let pages := e.pagesOf entry.file
  have finds : s.Finds pages (fun number given => ∃ e₁, kept e₁ ∧ e₁.pagesOf entry.file = pages ∧
      given = ((e₁.rowMap table entry).onPage number).map (Row.stored entry.schema))
      fun e' => kept e' ∧ e'.pagesOf entry.file = pages := by
    rintro e₁ number ⟨keeps₁, long⟩ -
    obtain ⟨tidy₁, listed₁⟩ := lists e₁ keeps₁
    refine ((@getPage_glances (fun _ => True) ⟨s.table, number⟩ trivial s.txn .shared e₁).and
      (getPage_keeps tidy₁ s.txn ⟨s.table, number⟩ .shared)).mono ?_
    rintro (fault | page) e₂ ⟨⟨glanced, seen⟩, orderly, -⟩
    · exact ⟨glances e₁ e₂ keeps₁ glanced orderly.tidy, (glanced.pagesOf_eq entry.file).trans long⟩
    · refine ⟨⟨glances e₁ e₂ keeps₁ glanced orderly.tidy, (glanced.pagesOf_eq entry.file).trans long⟩,
        e₁, keeps₁, long, ?_⟩
      exact listed₁.rows_eq (own ▸ seen page rfl)
  refine FileScan.next_reads finds ?_ (fun e' kept => file ▸ kept.2) ⟨keeps, rfl⟩ here
  rintro number inside _ ⟨e₁, keeps₁, long, rfl⟩ passed
  exact reads e₁ number keeps₁ (long ▸ inside) passed

end Listed

/-! ### A row is written -/

namespace Filled

variable {txn : TxnId} {row : RowId} {content : Option (List Value)} (filled : Filled txn row content e e')

include filled

theorem view?_putAt : ∃ page, e.view? row.page = some page ∧ row.slot < page.slots.length ∧
    (page.valuesAt row.slot).isSome = content.isNone ∧ ∀ p, e'.view? p =
      if p = row.page then some ((page.putAt row.slot content).markDirty txn) else e.view? p := by
  obtain ⟨page, here, inside, other, copies⟩ := filled.copies
  refine ⟨page, view?_of_resident here, inside, other, fun p => ?_⟩
  by_cases same : p = row.page
  · rw [if_pos same, view?_of_resident ((copies p).trans (if_pos same))]
  · rw [if_neg same, Engine.view?, Engine.view?, copies, if_neg same, filled.stored?_kept]

theorem rowMap_write (own : row.page.table = table) :
    e'.rowMap table entry = (e.rowMap table entry).write row content := by
  obtain ⟨page, seen, inside, -, view⟩ := filled.view?_putAt
  exact filled.toSameFiles.rowMap_write own seen view fun other => page.valuesAt_putAt row.slot other content inside

theorem rowMap_of_ne (differs : row.page.table ≠ table) :
    e'.rowMap table entry = e.rowMap table entry := by
  obtain ⟨page, -, -, -, view⟩ := filled.view?_putAt
  refine rowMap_congr (filled.pagesOf_eq entry.file) filled.pageSize fun p own => ?_
  rw [view, if_neg]
  rintro rfl
  exact differs own

theorem isSome_rows (own : row.page.table = table) :
    ((e.rowMap table entry).rows row).isSome = content.isNone := by
  obtain ⟨page, seen, -, other, -⟩ := filled.view?_putAt
  rw [show (e.rowMap table entry).rows row = page.valuesAt row.slot from rowMap_rows e entry own seen row.slot]
  exact other

end Filled

/-! ### Copies without changes -/

/-- The copies of the pages of the table that hold no changes are what its file has. -/
structure Attuned (table : TableId) (entry : TableEntry) (e : Engine) : Prop extends Listed table entry e where
  clean : ∀ {p page}, p.table = table → e.resident.get? p = some page → page.dirtier = none → e.stored? p = some page

/-- Only a page with a value that is too long is not read as it was written. -/
theorem Upheld.attuned_of_whole {tables : List TableSpec} (upheld : Upheld tables e)
    (found : e.catalog.find? table = some entry)
    (whole : e.Whole table) : Attuned table entry e where
  shelved := upheld.shelved
  roomy := upheld.roomy
  settled := upheld.settled
  found := found
  clean {p page} own here clean := by
    by_cases long : page.Overlong
    · exact whole p page own here clean long
    · rcases upheld.settled.clean here clean with same | reread
      · exact same
      · rw [(upheld.shelved.pages here).shaped.reread_eq clean long] at reread
        exact reread

namespace Attuned

variable (attuned : Attuned table entry e)

include attuned

theorem of_glanced (glanced : Glanced mine e e') : Attuned table entry e' where
  toListed := attuned.toListed.of_glanced glanced
  clean {p page} own here clean := by
    rw [glanced.stored?_kept]
    rcases (glanced.copies p).held_before here with before | stored
    · exact attuned.clean own before clean
    · exact stored

theorem of_filled {txn : TxnId} {row : RowId} {content : Option (List Value)} (filled : Filled txn row content e e')
    (shelved : e'.Shelved) : Attuned table entry e' where
  toListed := attuned.toListed.of_filled filled shelved
  clean {p page} own here clean := by
    obtain ⟨before, -, -, -, copies⟩ := filled.copies
    rw [copies] at here
    rw [filled.stored?_kept]
    split at here
    · cases here
      exact absurd clean (by simp [Page.markDirty])
    · exact attuned.clean own here clean

theorem view?_of_seen (own : p.table = table) (seen : Seen p e e') : e'.view? p = e.view? p := by
  rcases seen with same | ⟨⟨page, here, clean⟩, stored⟩
  · exact same
  · rw [stored, view?_of_resident here, attuned.clean own here clean]

theorem rowMap_of_glanced (glanced : Glanced mine e e') : e'.rowMap table entry = e.rowMap table entry :=
  rowMap_congr (glanced.pagesOf_eq entry.file) glanced.pageSize fun p own =>
    attuned.view?_of_seen own ((glanced.copies p).seen_of_stored (glanced.stored?_kept p))

theorem rowMap_of_untouched {other : TxnId} (untouched : Untouched (· = table) other e e') (shelved : e'.Shelved) :
    e'.rowMap table entry = e.rowMap table entry := by
  have found : e'.catalog.find? table = some entry := by rw [untouched.catalog, attuned.found]
  obtain ⟨g, opened, -⟩ := attuned.shelved.current attuned.found
  have file : e.fileOf? table = some g.unread :=
    (e.fileOf?_eq_some_iff _ _).mpr ⟨entry, g, attuned.found, opened, rfl⟩
  obtain ⟨⟨reads, writes, file'⟩, -⟩ := untouched.contentsOf_eq attuned.shelved shelved rfl file
  refine rowMap_congr ?_ untouched.pageSize fun p own =>
    untouched.view?_of_clean attuned.shelved shelved own fun _ => attuned.clean own
  exact (pagesOf_of_fileOf? found file').trans (pagesOf_of_fileOf? attuned.found file).symm

end Attuned

/-! ### A table in hand -/

/-- Besides, what is changed of the table the transaction has changed. -/
structure InHand (txn : TxnId) (table : TableId) (entry : TableEntry) (e : Engine) : Prop
    extends Attuned table entry e where
  ours : Ours (· = table) txn e

namespace InHand

variable {txn : TxnId} (inHand : InHand txn table entry e)

include inHand

theorem of_glanced (glanced : Glanced mine e e') : InHand txn table entry e' where
  toAttuned := inHand.toAttuned.of_glanced glanced
  ours p page other own here dirty :=
    inHand.ours p page other own ((glanced.copies p).held_changed here dirty) dirty

theorem of_filled {row : RowId} {content : Option (List Value)} (filled : Filled txn row content e e')
    (shelved : e'.Shelved) : InHand txn table entry e' where
  toAttuned := inHand.toAttuned.of_filled filled shelved
  ours p page other own here dirty := by
    obtain ⟨before, -, -, -, copies⟩ := filled.copies
    rw [copies] at here
    split at here
    · cases here
      exact (Option.some.inj dirty).symm
    · exact inHand.ours p page other own here dirty

theorem act_spares (tidy : e.Tidy) (op : Op) (spares : op.looks = true ∨ op.table? ≠ some table)
    (goesOn : op.ends = true → op.txn ≠ txn) : Ensures op.act e fun _ e' =>
      e'.Tidy ∧ InHand txn table entry e' ∧ e'.rowMap table entry = e.rowMap table entry := by
  by_cases looking : op.looks = true
  · have glances : Ensures op.act e fun _ e' => Glanced (fun _ => True) e e' :=
      op.act_glances (fun _ _ => trivial) looking e
    refine ((op.act_unfolds e tidy).and glances).mono ?_
    rintro answer e' ⟨⟨tidy', -⟩, glanced⟩
    exact ⟨tidy', inHand.of_glanced glanced, inHand.rowMap_of_glanced glanced⟩
  · have sturdy := inHand.toListed.sturdy_of_tidy tidy
    have beside : ∀ other, op.table? = some other → ¬other = table := by
      rintro other about rfl
      exact spares.elim looking fun elsewhere => elsewhere about
    -- Where nothing ends, the transaction may have written to other tables, and any other one has not.
    obtain ⟨witness, differs, ours⟩ : ∃ witness, op.txn ≠ witness ∧
        (op.ends = true → Ours (· = table) witness e) := by
      cases closes : op.ends with
      | true => exact ⟨txn, goesOn closes, fun _ => inHand.ours⟩
      | false => exact ⟨⟨op.txn.number + 1⟩, fun same => by simpa using congrArg TxnId.number same, by simp⟩
    refine ((op.act_untouched sturdy ours differs beside).and (inHand.settled.act_settles sturdy op)).mono ?_
    rintro answer e' ⟨⟨sturdy', untouched⟩, settled⟩
    have found : e'.catalog.find? table = some entry := by rw [untouched.catalog, inHand.found]
    refine ⟨sturdy'.tidy, ⟨⟨⟨sturdy'.shelved, sturdy'.roomy, settled sturdy'.shelved, found⟩, ?_⟩,
      untouched.ours_mono inHand.ours⟩, inHand.rowMap_of_untouched untouched sturdy'.shelved⟩
    intro p page own here clean
    exact untouched.stays_clean inHand.shelved sturdy'.shelved own (fun _ => inHand.clean own) _ here clean

end InHand

end Engine

end RowStore
