import RowStore.Proofs.Engine.Ending
import RowStore.Proofs.Engine.Scan
import RowStore.Proofs.Engine.Tables
import RowStore.Proofs.Ledger
/-!
# The course of a store

Transactions take their steps in any order, and any step may fail. Beside the engine a chronicle
keeps what nobody stores: the ledger of what the steps have done, and the bytes a page had in memory
when somebody who had changed it committed. The engine is faithful to the chronicle when its files
hold what was committed and every page in memory what its changer sees.
-/

namespace RowStore

/-- One step of a transaction. -/
inductive Op where
  | insert (txn : TxnId) (table : TableId) (schema : Schema) (values : List Value)
  | delete (txn : TxnId) (row : Option RowId)
  | read (txn : TxnId) (page : PageId) (mode : LockMode)
  | scan (scan : FileScan) (count : Nat)
  | commit (txn : TxnId)
  | abort (txn : TxnId)

inductive Answer where
  | stored (row : RowId)
  | removed (page : PageId)
  | page (found : Page)
  | rows (rows : List (Option Row)) (fault : Option Fault)
  | ended
deriving DecidableEq

/-- The fault that has ended a step early. -/
def Answer.fault? : Except Fault Answer → Option Fault
  | .error fault => some fault
  | .ok (.rows _ fault) => fault
  | .ok _ => none

/-- A scan is drawn from and what is left of it is forgotten: it may be any scan, so also one that
has been drawn from before. -/
def FileScan.draw (s : FileScan) (count : Nat) : Action Answer := fun e =>
  match FileScan.take count (s, e) with
  | .ok (rows, fault) (_, e) => .ok (.rows rows fault) e
  | .error fault (_, e) => .error fault e

/-- A row is made of the values before it is inserted, as rows are. -/
def Op.act : Op → Action Answer
  | .insert txn table schema values => do
    let row ← Engine.ofExcept (Row.build schema values)
    return .stored (← Engine.insert txn table row)
  | .delete txn row => return .removed (← Engine.delete txn row)
  | .read txn page mode => return .page (← Engine.getPage txn page mode)
  | .scan s count => s.draw count
  | .commit txn => do
    Engine.commit txn
    return .ended
  | .abort txn => do
    Engine.abort txn
    return .ended

theorem FileScan.draw_ensures {s : FileScan} {count : Nat} {e : Engine}
    {post : Except Fault (List (Option Row) × Option Fault) → FileScan × Engine → Prop}
    {goal : Except Fault Answer → Engine → Prop} (took : Ensures (FileScan.take count) (s, e) post)
    (ok : ∀ answer left, post (.ok answer) left → goal (.ok (.rows answer.1 answer.2)) left.2)
    (error : ∀ fault left, post (.error fault) left → goal (.error fault) left.2) :
    Ensures (s.draw count) e goal := by
  rw [Ensures, FileScan.draw]
  cases result : FileScan.take count (s, e) with
  | ok answer left => exact ok answer left (took.of_ok result)
  | error fault left => exact error fault left (took.of_error result)

theorem Op.insert_ensures {txn : TxnId} {table : TableId} {schema : Schema} {values : List Value} {e : Engine}
    {post : Except Fault RowId → Engine → Prop} {goal : Except Fault Answer → Engine → Prop}
    (refused : ∀ fault, Row.build schema values = .error fault → goal (.error fault) e)
    (inserted : Row.Fits values schema.types → Ensures (Engine.insert txn table ⟨schema, values, none⟩) e post)
    (ok : ∀ location e', post (.ok location) e' → goal (.ok (.stored location)) e')
    (error : ∀ fault e', post (.error fault) e' → goal (.error fault) e') :
    Ensures (Op.insert txn table schema values).act e goal := by
  rw [Op.act]
  cases built : Row.build schema values with
  | error fault => exact refused fault built
  | ok row =>
    obtain ⟨fits, rfl⟩ := (Row.build_eq_ok_iff schema values row).mp built
    exact (inserted fits).bind (fun location e' done => .pure (ok location e' done)) error

def Ledger.record (l : Ledger) : Op → Answer → Ledger
  | .insert txn _ _ values, .stored row => l.write txn ⟨row, some values⟩
  | .delete txn (some row), .removed _ => l.write txn ⟨row, none⟩
  | .commit txn, _ => l.commit txn
  | .abort txn, _ => l.abort txn
  | _, _ => l

structure Chronicle where
  engine : Engine
  ledger : Ledger
  /-- What the page was in memory when one who had changed it last committed. -/
  saved : PageId → Option Bytes

namespace Chronicle

def start (e : Engine) : Chronicle := ⟨e, .empty, fun _ => none⟩

/-- A commit saves every page in memory that holds changes of the transaction. -/
def save (c : Chronicle) (txn : TxnId) : PageId → Option Bytes := fun p =>
  match c.engine.resident.get? p with
  | some page => if page.dirtier = some txn then some page.encode else c.saved p
  | none => c.saved p

def saving (c : Chronicle) : Op → PageId → Option Bytes
  | .commit txn => c.save txn
  | _ => c.saved

/-- A step that fails leaves nothing but the engine as it has left it. -/
def next (c : Chronicle) (op : Op) : Chronicle :=
  match op.act c.engine with
  | .ok answer e => ⟨e, c.ledger.record op answer, c.saving op⟩
  | .error _ e => { c with engine := e }

def run (c : Chronicle) (ops : List Op) : Chronicle := ops.foldl next c

end Chronicle

namespace Engine

def Inside (e : Engine) (p : PageId) : Prop := ∃ f, e.fileOf? p.table = some f ∧ p.number < f.pages

variable {e e' : Engine} {txn : TxnId} {p : PageId}

theorem Coherent.inside_of_view? (coherent : e.Coherent) {page : Page} (seen : e.view? p = some page) : e.Inside p := by
  obtain ⟨f, file, within, -⟩ := coherent.of_of_view? seen
  exact ⟨f, file, within⟩

theorem SameFiles.inside_mono (files : SameFiles e e') (inside : e.Inside p) : e'.Inside p := by
  rw [Inside, files.fileOf?_kept]
  exact inside

theorem Grown.inside_mono {table : TableId} {f : TableFile} (grown : Grown table f e e') (inside : e.Inside p) :
    e'.Inside p := by
  obtain ⟨g, file, within⟩ := inside
  rw [Inside, grown.fileOf?_after]
  split
  · rename_i same
    rw [same, grown.file] at file
    cases file
    exact ⟨_, rfl, Nat.lt_succ_of_lt within⟩
  · exact ⟨g, file, within⟩

theorem Grown.not_inside_added {table : TableId} {f : TableFile} (grown : Grown table f e e') (own : f.table = table) :
    ¬e.Inside (f.pageId f.pages) := by
  rintro ⟨g, file, within⟩
  rw [TableFile.pageId, own, grown.file] at file
  cases file
  exact Nat.lt_irrefl _ within

theorem Committed.inside_mono (committed : Committed txn e e') (inside : e.Inside p) : e'.Inside p := by
  obtain ⟨f, file, within⟩ := inside
  obtain ⟨g, here, -, pages⟩ := committed.fileOf?_kept file
  exact ⟨g, here, by rw [pages]; exact within⟩

/-- The transaction has changed the page, or whoever looks at it finds no change of the transaction. -/
theorem changed_or_unchanged (e : Engine) (txn : TxnId) (p : PageId) :
    (∃ page, e.view? p = some page ∧ page.dirtier = some txn) ∨
      ∀ page, e.view? p = some page → page.dirtier ≠ some txn := by
  by_cases changed : ∃ page, e.view? p = some page ∧ page.dirtier = some txn
  · exact .inl changed
  · exact .inr fun page seen dirty => changed ⟨page, seen, dirty⟩

end Engine

/-- The files hold what was committed, and a page with changes what the one who changed it sees. -/
structure Chronicle.Faithful (c : Chronicle) : Prop where
  coherent : c.engine.Coherent
  compatible : c.engine.locks.Compatible
  locked : ∀ {p page txn}, c.engine.view? p = some page → page.dirtier = some txn →
    c.engine.locks.mode? txn p = some .exclusive
  dirty : ∀ {p page txn}, c.engine.view? p = some page → page.dirtier = some txn →
    ∀ slot, page.valuesAt slot = c.ledger.seen txn ⟨p, slot⟩
  stored : ∀ {p page}, c.engine.stored? p = some page →
    ∀ slot, page.valuesAt slot = c.ledger.committed ⟨p, slot⟩
  pending : ∀ {txn w}, w ∈ c.ledger.pending txn →
    ∃ page, c.engine.view? w.row.page = some page ∧ page.dirtier = some txn
  placed : ∀ {row values}, c.ledger.committed row = some values → c.engine.Inside row.page
  bytes : ∀ {p bytes}, c.engine.bytes? p = some bytes →
    bytes = (c.saved p).getD (Bytes.zeros c.engine.settings.pageSize)
  saved : ∀ {p bytes}, c.saved p = some bytes → c.engine.Inside p

namespace Chronicle

variable {c : Chronicle} {txn : TxnId} {p : PageId}

theorem save_of_dirty {page : Page} (seen : c.engine.view? p = some page)
    (dirty : page.dirtier = some txn) : c.save txn p = some page.encode := by
  have resident := Engine.resident_of_dirty seen (by rw [dirty]; exact Option.some_ne_none txn)
  rw [save, resident]
  exact if_pos dirty

theorem save_of_others (others : ∀ page, c.engine.view? p = some page → page.dirtier ≠ some txn) :
    c.save txn p = c.saved p := by
  rw [save]
  cases resident : c.engine.resident.get? p with
  | none => rfl
  | some page => exact if_neg (others page (Engine.view?_of_resident resident))

end Chronicle

def Chronicle.After (c : Chronicle) (op : Op) : Except Fault Answer → Engine → Prop
  | .ok answer, e => Faithful ⟨e, c.ledger.record op answer, c.saving op⟩ ∧ Engine.SameTables c.engine e
  | .error _, e => { c with engine := e }.Faithful ∧ Engine.SameTables c.engine e

namespace Chronicle.Faithful

open Engine

variable {c : Chronicle} (faithful : c.Faithful)

include faithful

/-- A page that nobody else has changed is what the transaction sees. -/
theorem valuesAt_eq_seen {p : PageId} {page : Page} {txn : TxnId} (seen : c.engine.view? p = some page)
    (own : ∀ other, page.dirtier = some other → other = txn) (slot : Nat) :
    page.valuesAt slot = c.ledger.seen txn ⟨p, slot⟩ := by
  cases dirtier : page.dirtier with
  | some other =>
    have same := own other dirtier
    subst same
    exact faithful.dirty seen dirtier slot
  | none =>
    rw [faithful.stored (faithful.coherent.stored?_of_clean seen dirtier) slot, Ledger.seen_of_untouched]
    intro w among touched
    obtain ⟨copy, found, dirty⟩ := faithful.pending among
    rw [touched, seen] at found
    cases found
    rw [dirtier] at dirty
    exact absurd dirty (by simp)

theorem dirtier_eq_of_exclusive {p : PageId} {page : Page} {txn other : TxnId} (seen : c.engine.view? p = some page)
    (exclusive : c.engine.locks.mode? txn p = some .exclusive) (dirtier : page.dirtier = some other) :
    other = txn :=
  faithful.compatible p txn other .exclusive exclusive (faithful.locked seen dirtier)

/-- A row on a page that the transaction has not changed is, for it, what was committed. -/
theorem seen_of_unchanged {p : PageId} {txn : TxnId}
    (unchanged : ∀ page, c.engine.view? p = some page → page.dirtier ≠ some txn) (slot : Nat) :
    c.ledger.seen txn ⟨p, slot⟩ = c.ledger.committed ⟨p, slot⟩ := by
  apply Ledger.seen_of_untouched
  intro w among touched
  obtain ⟨page, found, dirty⟩ := faithful.pending among
  rw [touched] at found
  exact unchanged page found dirty

/-- Where the files are the same and nothing more has been committed, only the locks and the pages with changes are
left to be looked at. -/
theorem of_sameFiles {e' : Engine} {l : Ledger} (files : SameFiles c.engine e')
    (committed : l.committed = c.ledger.committed) (coherent : e'.Coherent) (compatible : e'.locks.Compatible)
    (locked : ∀ {p page txn}, e'.view? p = some page → page.dirtier = some txn →
      e'.locks.mode? txn p = some .exclusive)
    (dirty : ∀ {p page txn}, e'.view? p = some page → page.dirtier = some txn →
      ∀ slot, page.valuesAt slot = l.seen txn ⟨p, slot⟩)
    (pending : ∀ {txn w}, w ∈ l.pending txn →
      ∃ page, e'.view? w.row.page = some page ∧ page.dirtier = some txn) : Faithful ⟨e', l, c.saved⟩ where
  coherent := coherent
  compatible := compatible
  locked := locked
  dirty := dirty
  pending := pending
  stored {p page} found slot := by
    rw [files.stored?_kept] at found
    rw [committed]
    exact faithful.stored found slot
  placed found := by
    rw [committed] at found
    exact files.inside_mono (faithful.placed found)
  bytes found := by
    rw [files.bytes?_kept] at found
    rw [files.pageSize]
    exact faithful.bytes found
  saved found := files.inside_mono (faithful.saved found)

theorem faithful_of_browsed {txn : TxnId} {e' : Engine} (browsed : Browsed txn c.engine e') :
    { c with engine := e' }.Faithful := by
  have view := browsed.swapped.view?_eq
  apply faithful.of_sameFiles browsed.swapped.to_sameFiles
  case committed => rfl
  case coherent => exact browsed.coherent_after
  case compatible => exact browsed.locks.compatible faithful.compatible
  case locked =>
    intro p page other seen dirty
    rw [view] at seen
    have before := faithful.locked seen dirty
    by_cases same : other = txn
    · subst same
      exact browsed.locks.exclusive p before
    · rw [browsed.locks.others other p same]
      exact before
  case dirty =>
    intro p page other seen
    rw [view] at seen
    exact faithful.dirty seen
  case pending =>
    intro other w among
    rw [view]
    exact faithful.pending among

theorem faithful_of_grown {table : TableId} {f : TableFile} {e' : Engine} (grown : Grown table f c.engine e') :
    { c with engine := e' }.Faithful := by
  have outside := grown.not_inside_added (faithful.coherent.table_eq_of_fileOf? grown.file)
  constructor
  case coherent => exact grown.after
  case compatible =>
    rw [grown.locks_eq]
    exact faithful.compatible
  case locked =>
    intro p page other seen dirty
    rw [grown.view?_after] at seen
    rw [grown.locks_eq]
    split at seen
    · cases seen
      exact absurd dirty (by simp [Page.blank])
    · exact faithful.locked seen dirty
  case dirty =>
    intro p page other seen dirty
    rw [grown.view?_after] at seen
    split at seen
    · cases seen
      exact absurd dirty (by simp [Page.blank])
    · exact faithful.dirty seen dirty
  case stored =>
    intro p page stored slot
    rw [grown.stored?_after] at stored
    split at stored
    · rename_i last
      cases stored
      rw [Page.valuesAt_blank]
      cases committed : c.ledger.committed ⟨p, slot⟩ with
      | none => rfl
      | some values =>
        have placed := faithful.placed committed
        rw [last] at placed
        exact absurd placed outside
    · exact faithful.stored stored slot
  case pending =>
    intro other w among
    obtain ⟨page, seen, dirty⟩ := faithful.pending among
    refine ⟨page, ?_, dirty⟩
    rw [grown.view?_after, if_neg, seen]
    intro last
    have within := faithful.coherent.inside_of_view? seen
    rw [last] at within
    exact outside within
  case placed =>
    intro row values committed
    exact grown.inside_mono (faithful.placed committed)
  case bytes =>
    intro p bytes found
    rw [grown.bytes?_after] at found
    rw [grown.to_sameTables.pageSize]
    split at found
    · rename_i last
      cases found
      cases saved : c.saved p with
      | none =>
        obtain ⟨size, -⟩ := faithful.coherent.sized grown.file
        rw [Option.getD_none, size]
      | some bytes =>
        have placed := faithful.saved saved
        rw [last] at placed
        exact absurd placed outside
    · exact faithful.bytes found
  case saved =>
    intro p bytes saved
    exact grown.inside_mono (faithful.saved saved)

/-- On the page that the transaction changes it goes on from what it saw. -/
theorem seen_of_changed {txn : TxnId} {page : Page} {slot : Nat} {content : Option (List Value)} {e' : Engine}
    (changed : Changed txn page slot content c.engine e') (slot' : Nat) :
    (page.putAt slot content).valuesAt slot' =
      (c.ledger.write txn ⟨page.locate slot, content⟩).seen txn ⟨page.id, slot'⟩ := by
  have own : ∀ other, page.dirtier = some other → other = txn :=
    fun other => faithful.dirtier_eq_of_exclusive changed.owns.view?_eq_some changed.owns.exclusive
  have before := faithful.valuesAt_eq_seen changed.owns.view?_eq_some own slot'
  have rows : (⟨page.id, slot'⟩ : RowId) = page.locate slot ↔ slot' = slot := by
    simp only [Page.locate, RowId.mk.injEq, true_and]
  rw [Ledger.seen_write_self, Contents.write]
  simp only [rows, ← before]
  exact page.valuesAt_putAt slot slot' content changed.inside

/-- The transaction that changes a page had it to itself, so nobody else has changed it. -/
theorem faithful_of_changed {txn : TxnId} {page : Page} {slot : Nat} {content : Option (List Value)} {e' : Engine}
    (changed : Changed txn page slot content c.engine e') :
    { c with engine := e', ledger := c.ledger.write txn ⟨page.locate slot, content⟩ }.Faithful := by
  have view := changed.view?_after
  have seen := changed.owns.view?_eq_some
  apply faithful.of_sameFiles changed.to_sameFiles
  case committed => rfl
  case coherent => exact changed.after
  case compatible =>
    rw [changed.locks_eq]
    exact faithful.compatible
  case locked =>
    intro p copy other found dirty
    rw [view] at found
    rw [changed.locks_eq]
    split at found
    · rename_i same
      cases found
      cases dirty
      rw [same]
      exact changed.owns.exclusive
    · exact faithful.locked found dirty
  case dirty =>
    intro p copy other found dirty slot'
    rw [view] at found
    split at found
    · rename_i same
      subst same
      cases found
      cases dirty
      exact faithful.seen_of_changed changed slot'
    · rename_i differs
      have before := faithful.dirty found dirty slot'
      by_cases same : other = txn
      · subst same
        rw [Ledger.seen_write_self, Contents.write, if_neg, before]
        intro touched
        exact differs (congrArg RowId.page touched)
      · rw [Ledger.seen_write_of_ne _ _ _ _ same]
        exact before
  case pending =>
    intro other w among
    have still : (∃ copy, c.engine.view? w.row.page = some copy ∧ copy.dirtier = some other) →
        ∃ copy, e'.view? w.row.page = some copy ∧ copy.dirtier = some other := by
      rintro ⟨copy, found, dirty⟩
      rw [view]
      split
      · rename_i same
        rw [same, seen] at found
        cases found
        rw [faithful.dirtier_eq_of_exclusive seen changed.owns.exclusive dirty]
        exact ⟨_, rfl, rfl⟩
      · exact ⟨copy, found, dirty⟩
    rw [Ledger.pending_write] at among
    split at among
    · rename_i same
      rw [same] at still ⊢
      rcases List.mem_append.mp among with old | new
      · exact still (faithful.pending old)
      · rw [List.mem_singleton] at new
        rw [new, view]
        exact ⟨_, if_pos rfl, rfl⟩
    · exact still (faithful.pending among)

/-- What somebody has written who does not end is still on pages that he has changed. -/
theorem pending_of_ended {txn other : TxnId} {w : Write} (among : w ∈ (c.ledger.abort txn).pending other) :
    ∃ page, c.engine.view? w.row.page = some page ∧ page.dirtier = some other ∧ page.dirtier ≠ some txn := by
  rw [Ledger.pending_abort] at among
  split at among
  · exact absurd among (by simp)
  · rename_i differs
    obtain ⟨page, seen, dirty⟩ := faithful.pending among
    refine ⟨page, seen, dirty, ?_⟩
    rw [dirty]
    exact fun same => differs (Option.some.inj same)

theorem faithful_of_aborted {txn : TxnId} {e' : Engine} (aborted : Aborted txn c.engine e') :
    { c with engine := e', ledger := c.ledger.abort txn }.Faithful := by
  apply faithful.of_sameFiles aborted.files
  case committed => rfl
  case coherent => exact aborted.coherent
  case compatible =>
    rw [aborted.locks]
    exact faithful.compatible.compatible_releaseAll txn
  case locked =>
    intro p page other seen dirty
    obtain ⟨before, differs⟩ := aborted.dirty_before seen dirty
    rw [aborted.locks, LockTable.mode?_releaseAll, if_neg differs]
    exact faithful.locked before dirty
  case dirty =>
    intro p page other seen dirty slot
    obtain ⟨before, differs⟩ := aborted.dirty_before seen dirty
    rw [Ledger.seen_abort_of_ne _ _ _ differs]
    exact faithful.dirty before dirty slot
  case pending =>
    intro other w among
    obtain ⟨page, seen, dirty, others⟩ := faithful.pending_of_ended among
    exact ⟨page, aborted.view?_of_others seen others, dirty⟩

/-- The others see after a commit what they saw before it. -/
theorem dirty_of_committed {txn other : TxnId} {p : PageId} {page : Page} (seen : c.engine.view? p = some page)
    (dirty : page.dirtier = some other) (differs : other ≠ txn) (slot : Nat) :
    page.valuesAt slot = (c.ledger.commit txn).seen other ⟨p, slot⟩ := by
  have others : ∀ copy, c.engine.view? p = some copy → copy.dirtier ≠ some txn := by
    intro copy found
    rw [seen] at found
    cases found
    rw [dirty]
    exact fun same => differs (Option.some.inj same)
  have writes : (c.ledger.commit txn).pending other = c.ledger.pending other := by
    rw [Ledger.commit, Ledger.pending_abort, if_neg differs]
  have kept : (c.ledger.commit txn).committed ⟨p, slot⟩ = c.ledger.committed ⟨p, slot⟩ :=
    faithful.seen_of_unchanged others slot
  rw [faithful.dirty seen dirty slot, Ledger.seen, Ledger.seen, writes]
  exact (Contents.replay_congr _ _ _ _ kept).symm

/-- A page in the files has what the transaction saw on it, which is what was committed before if it is a page of
somebody else. -/
theorem stored_of_committed {txn : TxnId} {e' : Engine} (committed : Committed txn c.engine e') {p : PageId}
    {page : Page} (stored : e'.stored? p = some page) (slot : Nat) :
    page.valuesAt slot = c.ledger.seen txn ⟨p, slot⟩ := by
  rcases c.engine.changed_or_unchanged txn p with ⟨copy, seen, dirty⟩ | others
  · rw [committed.stored?_of_dirty seen dirty] at stored
    cases stored
    exact faithful.dirty seen dirty slot
  · rw [committed.stored?_of_others p others] at stored
    rw [faithful.seen_of_unchanged others slot]
    exact faithful.stored stored slot

theorem bytes_of_committed {txn : TxnId} {e' : Engine} (committed : Committed txn c.engine e') {p : PageId}
    {bytes : Bytes} (found : e'.bytes? p = some bytes) :
    bytes = (c.save txn p).getD (Bytes.zeros c.engine.settings.pageSize) := by
  rcases c.engine.changed_or_unchanged txn p with ⟨copy, seen, dirty⟩ | others
  · rw [committed.written p copy seen dirty] at found
    cases found
    rw [save_of_dirty seen dirty, Option.getD_some]
  · rw [committed.kept p others] at found
    rw [save_of_others others]
    exact faithful.bytes found

theorem inside_of_seen {txn : TxnId} {row : RowId} {values : List Value} (seen : c.ledger.seen txn row = some values) :
    c.engine.Inside row.page := by
  by_cases touched : ∃ w ∈ c.ledger.pending txn, w.row = row
  · obtain ⟨w, among, rfl⟩ := touched
    obtain ⟨page, found, -⟩ := faithful.pending among
    exact faithful.coherent.inside_of_view? found
  · rw [Ledger.seen_of_untouched] at seen
    · exact faithful.placed seen
    · exact fun w among same => touched ⟨w, among, same⟩

theorem inside_of_save {txn : TxnId} {p : PageId} {bytes : Bytes} (saved : c.save txn p = some bytes) :
    c.engine.Inside p := by
  rcases c.engine.changed_or_unchanged txn p with ⟨copy, seen, -⟩ | others
  · exact faithful.coherent.inside_of_view? seen
  · rw [save_of_others others] at saved
    exact faithful.saved saved

/-- The pages of the transaction that commits are all that it has written to, so what it saw is what
the files have afterwards. -/
theorem faithful_of_committed {txn : TxnId} {e' : Engine} (committed : Committed txn c.engine e') :
    Faithful ⟨e', c.ledger.commit txn, c.save txn⟩ := by
  constructor
  case coherent => exact committed.coherent
  case compatible =>
    rw [committed.locks]
    exact faithful.compatible.compatible_releaseAll txn
  case locked =>
    intro p page other seen dirty
    obtain ⟨before, differs⟩ := committed.dirty_before seen dirty
    rw [committed.locks, LockTable.mode?_releaseAll, if_neg differs]
    exact faithful.locked before dirty
  case dirty =>
    intro p page other seen dirty slot
    obtain ⟨before, differs⟩ := committed.dirty_before seen dirty
    exact faithful.dirty_of_committed before dirty differs slot
  case stored => exact faithful.stored_of_committed committed
  case pending =>
    intro other w among
    obtain ⟨page, seen, dirty, others⟩ := faithful.pending_of_ended among
    refine ⟨page, ?_, dirty⟩
    rw [committed.view?, seen, Option.map_some, if_neg others]
  case placed => exact fun seen => committed.inside_mono (faithful.inside_of_seen seen)
  case bytes =>
    intro p bytes found
    rw [committed.tables.pageSize]
    exact faithful.bytes_of_committed committed found
  case saved => exact fun saved => committed.inside_mono (faithful.inside_of_save saved)

theorem faithful_of_sought {txn : TxnId} {table : TableId} {f : TableFile} {e' : Engine}
    (sought : Sought txn table f c.engine e') : { c with engine := e' }.Faithful := by
  cases sought with
  | among browsed => exact faithful.faithful_of_browsed browsed
  | beyond e₀ e₁ full before grown after =>
    exact ((faithful.faithful_of_browsed before).faithful_of_grown grown).faithful_of_browsed after

/-! ### Every step -/

theorem after_insert (txn : TxnId) (table : TableId) (schema : Schema) (values : List Value) :
    Ensures (Op.act (.insert txn table schema values)) c.engine
      (c.After (.insert txn table schema values)) := by
  refine Op.insert_ensures (fun _ _ => ⟨faithful, .refl⟩)
    (insert_ensures faithful.coherent txn table ⟨schema, values, none⟩) ?_ ?_
  · intro location e' stored
    obtain ⟨f, e₁, page, slot, -, -, sought, -, -, -, rfl, changed⟩ := stored
    exact ⟨(faithful.faithful_of_sought sought).faithful_of_changed changed, sought.to_sameTables.trans
      changed.to_sameFiles.to_sameTables⟩
  · intro fault e' failed
    rcases failed with ⟨f, -, -, sought, -⟩ | ⟨rfl, -⟩ | ⟨rfl, -⟩
    · exact ⟨faithful.faithful_of_sought sought, sought.to_sameTables⟩
    · exact ⟨faithful, .refl⟩
    · exact ⟨faithful, .refl⟩

theorem after_delete (txn : TxnId) (row : Option RowId) :
    Ensures (Op.act (.delete txn row)) c.engine (c.After (.delete txn row)) := by
  cases row with
  | none => exact ⟨faithful, .refl⟩
  | some row =>
    refine (delete_ensures faithful.coherent txn row).bind ?_ ?_
    · intro p e' removed
      obtain ⟨e₁, page, browsed, id, -, -, changed⟩ := removed
      have done := (faithful.faithful_of_browsed browsed).faithful_of_changed changed
      have located : page.locate row.slot = row := by rw [Page.locate, id]
      rw [located] at done
      exact .pure ⟨done, browsed.swapped.to_sameFiles.to_sameTables.trans changed.to_sameFiles.to_sameTables⟩
    · intro fault e' failed
      exact ⟨faithful.faithful_of_browsed failed.1, failed.1.swapped.to_sameFiles.to_sameTables⟩

theorem after_read (txn : TxnId) (p : PageId) (mode : LockMode) :
    Ensures (Op.act (.read txn p mode)) c.engine (c.After (.read txn p mode)) := by
  refine (getPage_browses faithful.coherent txn p mode).bind ?_ ?_
  · intro page e' gotten
    exact .pure ⟨faithful.faithful_of_browsed gotten.1, gotten.1.swapped.to_sameFiles.to_sameTables⟩
  · intro fault e' failed
    exact ⟨faithful.faithful_of_browsed failed.1, failed.1.swapped.to_sameFiles.to_sameTables⟩

theorem after_scan (s : FileScan) (count : Nat) :
    Ensures (Op.act (.scan s count)) c.engine (c.After (.scan s count)) := by
  refine FileScan.draw_ensures (FileScan.take_ensures faithful.coherent s count) ?_ fun _ _ => False.elim
  intro answer left took
  exact ⟨faithful.faithful_of_browsed took.browsed, took.browsed.swapped.to_sameFiles.to_sameTables⟩

theorem after_commit (txn : TxnId) : Ensures (Op.act (.commit txn)) c.engine (c.After (.commit txn)) := by
  refine (commit_ensures faithful.coherent txn).bind ?_ fun _ _ => False.elim
  intro _ e' committed
  exact .pure ⟨faithful.faithful_of_committed committed, committed.tables⟩

theorem after_abort (txn : TxnId) : Ensures (Op.act (.abort txn)) c.engine (c.After (.abort txn)) := by
  refine (abort_ensures faithful.coherent txn).bind ?_ fun _ _ => False.elim
  intro _ e' aborted
  exact .pure ⟨faithful.faithful_of_aborted aborted, aborted.files.to_sameTables⟩

theorem after_op (op : Op) : Ensures op.act c.engine (c.After op) := by
  cases op with
  | insert txn table schema values => exact faithful.after_insert txn table schema values
  | delete txn row => exact faithful.after_delete txn row
  | read txn page mode => exact faithful.after_read txn page mode
  | scan s count => exact faithful.after_scan s count
  | commit txn => exact faithful.after_commit txn
  | abort txn => exact faithful.after_abort txn

theorem faithful_next (op : Op) : (c.next op).Faithful ∧ SameTables c.engine (c.next op).engine := by
  rw [Chronicle.next]
  cases result : op.act c.engine with
  | ok answer e => exact (faithful.after_op op).of_ok result
  | error fault e => exact (faithful.after_op op).of_error result

theorem faithful_run (ops : List Op) : (c.run ops).Faithful ∧ SameTables c.engine (c.run ops).engine := by
  induction ops generalizing c with
  | nil => exact ⟨faithful, .refl⟩
  | cons op rest ih =>
    obtain ⟨faithful₁, tables⟩ := faithful.faithful_next op
    obtain ⟨faithful', tables'⟩ := ih faithful₁
    exact ⟨faithful', tables.trans tables'⟩

omit faithful in
theorem faithful_start {e : Engine} (registered : Registered e)
    (blank : ∀ table f, e.fileOf? table = some f → f.pages = 0) : (Chronicle.start e).Faithful := by
  have outside : ∀ p, ¬e.Inside p := by
    intro p inside
    obtain ⟨f, file, within⟩ := inside
    rw [blank _ f file] at within
    exact Nat.not_lt_zero _ within
  have unseen : ∀ {p page}, e.view? p = some page → False := by
    intro p page seen
    obtain ⟨f, file, within, -⟩ := registered.coherent.of_of_view? seen
    exact outside p ⟨f, file, within⟩
  constructor
  case coherent => exact registered.coherent
  case compatible =>
    show e.locks.Compatible
    rw [registered.unlocked]
    exact LockTable.compatible_empty
  case locked => exact fun seen _ => (unseen seen).elim
  case dirty => exact fun seen _ => (unseen seen).elim
  case stored => exact fun stored => (outside _ (stored?_inside e _ _ stored)).elim
  case pending => exact fun among => absurd among (by simp [Chronicle.start, Ledger.empty])
  case placed => exact fun committed => absurd committed (by simp [Chronicle.start, Ledger.empty])
  case bytes => exact fun found => (outside _ (bytes?_inside e _ _ found)).elim
  case saved => exact fun saved => absurd saved (by simp [Chronicle.start])

end Chronicle.Faithful

/-- Tables that have been registered once, on files with nothing in them. -/
structure Database where
  settings : Settings
  volume : Volume
  tables : List TableSpec
  ids : List TableId
  engine : Engine
  fresh : Engine.Fresh volume tables
  done : Engine.openTables tables (.start settings volume) = .ok ids engine

namespace Database

def after (d : Database) (ops : List Op) : Chronicle := (Chronicle.start d.engine).run ops

variable (d : Database)

theorem opened_engine : Engine.Opened d.tables d.ids (.start d.settings d.volume) d.engine :=
  d.fresh.opened_of_done d.done

theorem faithful_after (ops : List Op) :
    (d.after ops).Faithful ∧ Engine.SameTables d.engine (d.after ops).engine :=
  (Chronicle.Faithful.faithful_start d.opened_engine.registered fun _ _ =>
    d.fresh.pages_eq_zero d.opened_engine).faithful_run ops

/-- One table of numbers, three on a page, and two pages in memory. -/
def numbers : Database where
  settings := { pageSize := 16, poolPages := 2 }
  volume := .empty
  tables := [⟨"t", ⟨[⟨some "n", .int⟩]⟩, "t"⟩]
  ids := [⟨1⟩]
  engine :=
    { Engine.start { pageSize := 16, poolPages := 2 } .empty with
      volume := (Volume.empty.openTable "t").2
      files := [.ofContents ⟨1⟩ "t" ⟨[⟨some "n", .int⟩]⟩ 16 []]
      catalog := Catalog.empty.register ⟨1⟩ ⟨0, ⟨[⟨some "n", .int⟩]⟩, "t"⟩ }
  fresh := ⟨by simp, fun _ _ _ _ => rfl⟩
  done := rfl

/-- One transaction has put in a number and committed it, and another has put in the next. -/
def halfway : List Op :=
  [.insert ⟨1⟩ ⟨1⟩ ⟨[⟨none, .int⟩]⟩ [.int 7], .commit ⟨1⟩, .insert ⟨2⟩ ⟨1⟩ ⟨[⟨none, .int⟩]⟩ [.int 8]]

end Database

end RowStore
