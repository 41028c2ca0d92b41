import Mathlib.Data.List.Perm.Subperm
import RowStore.Proofs.FailedWrites
import RowStore.Proofs.TwoPhase
/-!
# The search for room

Pages are tried one after another, and each of them is locked and brought into memory to be looked at. The lock on a
page that is full is given back, so as the search goes on nobody has more locked than before, and what is not locked can
be given up for the next page. So where one transaction has the store to itself and has locked fewer pages than there
may be in memory, the search never lacks room, however many pages are full and also where the file has to grow.
-/

namespace RowStore

namespace Engine

variable {e e' : Engine} {txn : TxnId} {p : PageId}

/-! ### A page that there is can be had -/

section

variable (shelved : e.Shelved)

include shelved

theorem Shelved.readPage_succeeds {entry : TableEntry} (found : e.catalog.find? p.table = some entry)
    (inside : e.Inside p) : ∃ page e', readPage entry.file p e = .ok page e' := by
  obtain ⟨g, opened, own, -, whole⟩ := shelved.current found
  obtain ⟨f, file, within⟩ := inside
  obtain ⟨entry', g', found', opened', rfl⟩ := (e.fileOf?_eq_some_iff p.table f).mp file
  cases found.symm.trans found'
  cases opened.symm.trans opened'
  change p.number < g.pages at within
  have whole : ((e.contentsOf g).region (g.offset p.number) g.pageSize).length = g.pageSize := by
    refine TableFile.length_page within ?_
    rw [whole, (shelved.files opened).pageSize]
    exact Nat.div_mul_le_self ..
  obtain ⟨page, decoded⟩ := Page.exists_decode? p g.schema ((e.contentsOf g).region (g.offset p.number) g.pageSize)
  have reads : g.read (e.contentsOf g) p = .ok (page, { g with reads := g.reads + 1 }) :=
    TableFile.read_eq_ok_iff.mpr ⟨own.symm, within, whole, decoded, rfl⟩
  have openFile : openFile entry.file p.table e = .ok g e := by rw [openFile, opened]
  refine ⟨page, e.setFile entry.file { g with reads := g.reads + 1 }, ?_⟩
  change EStateM.bind (Engine.openFile entry.file p.table) _ e = _
  rw [EStateM.bind, openFile]
  dsimp only
  rw [get_bind_eq, reads]
  rfl

theorem Shelved.load_succeeds (inside : e.Inside p) (roomy : ¬e.Stuck) :
    Ensures (load p) e fun answer _ => ∃ page, answer = .ok page := by
  refine ((makeRoom_gives_up e).and (makeRoom_glances (fun _ => True) e)).bind ?_
    fun _ _ failed => absurd failed.1.2.2 roomy
  rintro _ e₁ ⟨-, glanced, -⟩
  have shelved₁ := shelved.shelved_of_glanced glanced
  have inside₁ : e₁.Inside p := by
    rw [Inside, glanced.fileOf?_kept]
    exact inside
  refine (resolve_ensures p.table).bind ?_ ?_
  · rintro entry e₁ ⟨rfl, found⟩
    obtain ⟨page, e₂, read⟩ := shelved₁.readPage_succeeds found inside₁
    refine (?_ : Ensures (readPage entry.file p) e₁ fun answer _ => answer = .ok page).bind ?_ (by simp)
    · rw [Ensures, read]
    · intro page e₃ _
      exact ⟨page, rfl⟩
  · rintro fault e₁ ⟨rfl, -, unknown⟩
    obtain ⟨f, file, -⟩ := inside₁
    exact absurd (unknown.symm.trans file) (by simp)

end

/-! ### A transaction has the store to itself -/

/-- Nobody but the transaction has a page locked, whatever is changed it has locked, and it has locked fewer pages than
there may be in memory. -/
structure Uncrowded (txn : TxnId) (e : Engine) : Prop extends Sturdy e where
  regular : e.Regular
  settled : e.Settled
  alone : ∀ p, Undisputed txn e p
  changed : ∀ {p page}, e.resident.get? p = some page → page.isDirty → e.locks.mode? txn p ≠ none
  fewer : ∃ pages : List PageId, pages.length < e.settings.poolPages ∧ ∀ p, e.locks.mode? txn p ≠ none → p ∈ pages

namespace Uncrowded

variable (uncrowded : Uncrowded txn e)

include uncrowded

/-- Some page in memory is not in use, or there are not as many as there may be. -/
theorem not_allInUse : ¬e.AllInUse := by
  rintro ⟨full, used⟩
  obtain ⟨pages, fewer, locked⟩ := uncrowded.fewer
  have among : e.resident.keys ⊆ pages := by
    intro p here
    obtain ⟨page, here⟩ := (e.resident.mem_keys_iff p).mp here
    apply locked
    rcases used p page here with dirty | ⟨holder, mode, held⟩
    · exact uncrowded.changed here dirty
    · by_cases own : holder = txn
      · rw [← own, held]
        exact Option.some_ne_none mode
      · exact absurd (held.symm.trans (uncrowded.alone p holder own)) (by simp)
  have bounded := (List.subperm_of_subset e.resident.nodup_keys among).length_le
  rw [← FinMap.size_eq_length_keys, full] at bounded
  omega

theorem blockers_eq_nil (p : PageId) (mode : LockMode) : e.locks.blockers ⟨txn, p, mode⟩ = [] := by
  refine (e.locks.blockers_eq_nil_iff _).mpr fun other held differs here => ?_
  exact absurd (here.symm.trans (uncrowded.alone p other differs)) (by simp)

theorem getPage_succeeds (inside : e.Inside p) (mode : LockMode) :
    Ensures (getPage txn p mode) e fun answer _ => ∃ page, answer = .ok page := by
  refine (lock_ensures txn p mode).bind ?_ fun _ _ failed => absurd (uncrowded.blockers_eq_nil p mode) failed.1
  rintro _ e₁ ⟨-, rfl⟩
  refine .get_bind ?_
  cases resident : e.resident.get? p with
  | some page => exact ⟨page, rfl⟩
  | none =>
    have locked : Orderly e { e with locks := e.locks.grant ⟨txn, p, mode⟩ } :=
      uncrowded.tidy.orderly_of_same_memory rfl rfl rfl
    have shelved := uncrowded.shelved.shelved_of_effect (.aside e.recency (e.locks.grant ⟨txn, p, mode⟩))
    refine shelved.load_succeeds inside ?_
    rw [locked.tidy.stuck_iff_allInUse, allInUse_granted_iff resident]
    exact uncrowded.not_allInUse

theorem uncrowded_of_glanced {mine : TableId → Prop} (regular : e'.Regular) (glanced : Glanced mine e e')
    (settings : e'.settings = e.settings) (spared : Spared txn e e') (only : LocksOnly txn none e e') :
    Uncrowded txn e' where
  tidy := regular.tidy
  shelved := uncrowded.shelved.shelved_of_glanced glanced
  roomy := by
    rw [Roomy, glanced.catalog, glanced.pageSize]
    exact uncrowded.roomy
  regular := regular
  settled := uncrowded.settled.settled_of_glanced uncrowded.shelved glanced
  alone p := spared.undisputed_mono (uncrowded.alone p)
  changed {p page} here dirty := by
    obtain ⟨other, changes⟩ := Option.isSome_iff_exists.mp dirty
    exact spared.locks.kept p (uncrowded.changed ((glanced.copies p).held_changed here changes) dirty)
  fewer := by
    obtain ⟨pages, fewer, locked⟩ := uncrowded.fewer
    refine ⟨pages, settings ▸ fewer, fun p held => locked p fun free => held ?_⟩
    exact only p (by simp) free

theorem uncrowded_of_lengthened {table : TableId} {f : TableFile} (regular : e'.Regular)
    (settings : e'.settings = e.settings)
    (longer : Lengthened table f e e') : Uncrowded txn e' where
  tidy := regular.tidy
  shelved := longer.shelved
  roomy := by
    rw [Roomy, longer.catalog, settings]
    exact uncrowded.roomy
  regular := regular
  settled := uncrowded.settled.settled_of_lengthened uncrowded.shelved longer
  alone p other differs := by
    rw [longer.locks]
    exact uncrowded.alone p other differs
  changed {p page} here dirty := by
    rw [longer.resident] at here
    rw [longer.locks]
    exact uncrowded.changed here dirty
  fewer := by
    rw [longer.locks, settings]
    exact uncrowded.fewer

/-! ### Pages are tried -/

variable {row : Row}

/-- A page that is tried takes the row, or it is full and everything is as it was but for what is in memory. -/
theorem insertOn_tries (inside : e.Inside p)
    (fits : ∀ entry, e.catalog.find? p.table = some entry → row.schema.sameTypes entry.schema) :
    Ensures (insertOn txn p row) e fun
      | .ok none, e' => Uncrowded txn e' ∧ Glanced (fun _ => True) e e' ∧
          ∃ page, e.view? p = some page ∧ page.freeSlots = 0
      | .ok (some _), _ => True
      | .error _, _ => False := by
  have tries : Ensures (insertOn txn p row) e fun answer _ => ∃ found, answer = .ok found := by
    refine .get_bind (((uncrowded.getPage_succeeds inside .exclusive).and
      ((@getPage_glances (fun _ => True) p trivial txn .exclusive e).and
        (getPage_keeps uncrowded.tidy txn p .exclusive))).bind ?_ ?_)
    · rintro page e₁ ⟨-, ⟨glanced, -⟩, -, here⟩
      obtain ⟨id, resident⟩ := here page rfl
      by_cases full : page.freeSlots = 0
      · rw [if_pos full]
        cases e.locks.holds txn p with
        | true => exact ⟨none, rfl⟩
        | false => exact ⟨none, rfl⟩
      · rw [if_neg full]
        obtain ⟨entry, found, columns⟩ := (uncrowded.settled.settled_of_glanced uncrowded.shelved glanced).known
          resident
        rw [glanced.catalog] at found
        refine (place_ensures page row e₁).map (fun location _ _ => ⟨some location, rfl⟩) ?_
        rintro fault e₂ ⟨-, refused⟩
        exact absurd (refused (columns ▸ fits entry found)) full
    · rintro fault e₁ ⟨failed, -⟩
      simp at failed
  refine (tries.and ((@insertOn_refills (fun _ => True) e uncrowded.tidy txn row p trivial).and
    ((insertOn_takes txn uncrowded.regular row p).and ((insertOn_spares uncrowded.regular txn p row).and
      (insertOn_tidies txn p row e uncrowded.tidy))))).mono ?_
  rintro (fault | _ | location) e' ⟨tried, looked, ⟨regular, only⟩, ⟨spared, -⟩, orderly⟩
  · simp at tried
  · obtain ⟨glanced, page, seen, full⟩ := looked
    exact ⟨uncrowded.uncrowded_of_glanced regular glanced orderly.settings spared (only none rfl), glanced, page,
      seen, full⟩
  · trivial

theorem insertOnFirst_tries (pages : List PageId) (inside : ∀ p ∈ pages, e.Inside p)
    (fits : ∀ p ∈ pages, ∀ entry, e.catalog.find? p.table = some entry → row.schema.sameTypes entry.schema) :
    Ensures (insertOnFirst txn row pages) e fun
      | .ok none, e' => Uncrowded txn e' ∧ Glanced (fun _ => True) e e'
      | .ok (some _), _ => True
      | .error _, _ => False := by
  induction pages generalizing e with
  | nil => exact .pure ⟨uncrowded, .refl⟩
  | cons p rest ih =>
    refine (uncrowded.insertOn_tries (inside p List.mem_cons_self) (fits p List.mem_cons_self)).bind ?_
      fun _ _ failed => failed
    rintro (_ | location) e₁ tried
    · obtain ⟨uncrowded₁, glanced, -⟩ := tried
      have later := ih uncrowded₁
        (fun q later => by
          rw [Inside, glanced.fileOf?_kept]
          exact inside q (List.mem_cons_of_mem _ later))
        (fun q later entry found => fits q (List.mem_cons_of_mem _ later) entry (glanced.catalog ▸ found))
      refine later.mono ?_
      rintro (fault | _ | location) e₂ done
      · exact done
      · exact ⟨done.1, glanced.trans done.2⟩
      · trivial
    · exact .pure trivial

theorem insertOnNew_tries {table : TableId} {entry : TableEntry} (found : e.catalog.find? table = some entry)
    (fits : row.schema.sameTypes entry.schema) (tries : Nat) :
    Ensures (insertOnNew txn entry.file table row (tries + 1)) e fun answer _ => ∃ location, answer = .ok location := by
  refine ((uncrowded.shelved.extendFile_lengthens found).and ((extendFile_tidies entry.file table e uncrowded.tidy).and
    (extendFile_regular uncrowded.regular entry.file table))).bind ?_ fun _ _ failed => failed.1.elim
  rintro p e₁ ⟨⟨f, longer, rfl⟩, orderly, regular, -⟩
  have uncrowded₁ := uncrowded.uncrowded_of_lengthened regular orderly.settings longer
  have inside : e₁.Inside ⟨table, f.pages⟩ :=
    ⟨{ f with pages := f.pages + 1 }, (longer.fileOf? table).trans (if_pos rfl), Nat.lt_succ_self _⟩
  refine (uncrowded₁.insertOn_tries inside ?_).bind ?_ fun _ _ failed => failed.elim
  · intro entry' found'
    rw [longer.catalog, found] at found'
    cases found'
    exact fits
  · rintro (_ | location) e₂ tried
    · obtain ⟨-, -, page, seen, full⟩ := tried
      exact absurd full (uncrowded.shelved.roomy_of_lengthened uncrowded.roomy longer seen)
    · exact .pure ⟨location, rfl⟩

theorem insertInFile_succeeds {table : TableId} {entry : TableEntry} (found : e.catalog.find? table = some entry)
    (fits : row.schema.sameTypes entry.schema) :
    Ensures (insertInFile txn entry.file table row) e fun answer _ => ∃ location, answer = .ok location := by
  let pages := (List.range (e.pagesOf entry.file)).map fun number => PageId.mk table number
  have inside : ∀ p ∈ pages, e.Inside p := by
    intro p among
    obtain ⟨number, within, rfl⟩ := List.mem_map.mp among
    obtain ⟨g, opened, -, -, -⟩ := uncrowded.shelved.current found
    refine ⟨g.unread, (e.fileOf?_eq_some_iff _ _).mpr ⟨entry, g, found, opened, rfl⟩, ?_⟩
    rw [List.mem_range, pagesOf, opened] at within
    exact within
  have columns : ∀ p ∈ pages, ∀ entry', e.catalog.find? p.table = some entry' →
      row.schema.sameTypes entry'.schema := by
    intro p among entry' found'
    obtain ⟨number, -, rfl⟩ := List.mem_map.mp among
    cases found.symm.trans found'
    exact fits
  refine .get_bind ((uncrowded.insertOnFirst_tries pages inside columns).bind ?_ fun _ _ failed => failed.elim)
  rintro (_ | location) e₁ tried
  · obtain ⟨uncrowded₁, glanced⟩ := tried
    exact .get_bind (uncrowded₁.insertOnNew_tries (glanced.catalog ▸ found) fits _)
  · exact .pure ⟨location, rfl⟩

theorem insert_succeeds {table : TableId} {entry : TableEntry} (found : e.catalog.find? table = some entry)
    (fits : row.schema.sameTypes entry.schema) : ∃ location e', insert txn table row e = .ok location e' := by
  refine Ensures.exists_ok ((resolve_ensures table).bind ?_ ?_)
  · rintro entry' e ⟨rfl, found'⟩
    cases found.symm.trans found'
    rw [checkSchema, if_pos fits]
    refine (uncrowded.insertInFile_succeeds found fits).bind ?_ fun _ _ failed => by simp at failed
    intro location e₁ _
    have marks : Ensures (markDirty txn (.current location.page)) e₁ fun answer _ => answer = .ok () := by
      rw [Ensures, markDirty_current]
      cases e₁.resident.get? location.page <;> rfl
    exact marks.bind (fun _ _ _ => .pure ⟨location, rfl⟩) fun _ _ failed => by simp at failed
  · rintro fault e ⟨rfl, -, unknown⟩
    obtain ⟨g, opened, -⟩ := uncrowded.shelved.current found
    have file := (e.fileOf?_eq_some_iff table g.unread).mpr ⟨entry, g, found, opened, rfl⟩
    exact absurd (unknown.symm.trans file) (by simp)

end Uncrowded

/-! ### Tables that are registered once -/

/-- Whatever is changed can be written. -/
theorem Settled.verdict_eq_ok (settled : e.Settled) (txn : TxnId) : e.verdict (e.dirtyPages txn) = .ok () := by
  have none : (e.dirtyPages txn).find? (fun p => !e.writable p) = none := by
    rw [List.find?_eq_none]
    intro p among
    obtain ⟨page, here, -⟩ := (e.mem_dirtyPages_iff_resident txn p).mp among
    obtain ⟨entry, found, -⟩ := settled.known here
    simp [writable, found]
  rw [verdict, none]

theorem Upheld.exists_ok_of_ends {tables : List TableSpec} (upheld : Upheld tables e) {op : Op}
    (closes : op.ends = true) :
    ∃ a, (outcome op.act e).1 = .ok a := by
  have succeeds : Ensures op.act e fun answer _ => ∃ a, answer = .ok a := by
    obtain ⟨txn, rfl | rfl⟩ := Op.eq_of_ends closes
    · have commits : Ensures (Engine.commit txn) e fun answer _ => answer = .ok () := by
        refine .congr (commit_eq txn e) ((commitIn_saves upheld.shelved upheld.tidy (.refl _)).mono ?_)
        intro answer e' done
        exact done.1.trans (upheld.settled.verdict_eq_ok txn)
      exact commits.bind (fun _ _ _ => .pure ⟨.ended, rfl⟩) fun _ _ failed => by simp at failed
    · obtain ⟨e', done, -⟩ := abort_drops txn e
      have aborts : Ensures (Engine.abort txn) e fun answer _ => answer = .ok () := by rw [Ensures, done]
      exact aborts.bind (fun _ _ _ => .pure ⟨.ended, rfl⟩) fun _ _ failed => by simp at failed
  exact succeeds.outcome

end Engine

open Engine

/-- What is asked of the store. -/
def Move.call : Move → Call
  | .register path schema name => .register ⟨path, schema, name⟩
  | .step op => .step op

namespace Course

theorem next_engine (c : Course) (move : Move) : (c.next move).engine = (outcome move.call.act c.engine).2 := by
  have forgotten : ∀ {α : Type} (act : Action α),
      (outcome (do let _ ← act : Action Unit) c.engine).2 = (outcome act c.engine).2 := by
    intro α act
    rw [outcome_bind]
    rcases outcome act c.engine with ⟨_ | _, _⟩ <;> rfl
  cases move with
  | register path schema name => exact (forgotten _).symm
  | step op => exact (forgotten _).symm

theorem engine_after (settings : Settings) (volume : Volume) (moves : List Move) :
    (after settings volume moves).engine = Call.after settings volume (moves.map Move.call) := by
  induction moves using List.reverseRecOn with
  | nil => rfl
  | append_singleton moves move ih =>
    rw [after_concat, next_engine, ih, Call.after, Call.after, List.map_append, List.foldl_append]
    rfl

variable {settings : Settings} {volume : Volume} {moves : List Move}

theorem upheld_after (once : ((moves.map Move.call).filterMap Call.table?).Pairwise TableSpec.Unlike) :
    Upheld ((moves.map Move.call).filterMap Call.table?) (after settings volume moves).engine := by
  rw [engine_after]
  exact Call.upheld_after settings volume _ once

theorem settings_after (settings : Settings) (volume : Volume) (moves : List Move) :
    (after settings volume moves).engine.settings = settings := by
  induction moves using List.reverseRecOn with
  | nil => rfl
  | append_singleton moves move ih =>
    rw [after_concat]
    cases move with
    | register path schema name =>
      rcases createTable_cases path schema name (after settings volume moves).engine with same | ⟨_, -, -, same⟩
      · exact (congrArg Engine.settings same).trans ih
      · exact (congrArg Engine.settings same).trans ih
    | step op => exact (settings_of_effects ((kept_after settings volume moves).effects_step op)).1.trans ih

theorem failed_after (once : ((moves.map Move.call).filterMap Call.table?).Pairwise TableSpec.Unlike) :
    (after settings volume moves).failed = [] := by
  induction moves using List.reverseRecOn with
  | nil => rfl
  | append_singleton moves move ih =>
    have before : ((moves.map Move.call).filterMap Call.table?).Pairwise TableSpec.Unlike := by
      rw [List.map_append, List.filterMap_append] at once
      exact (List.pairwise_append.mp once).1
    rw [after_concat]
    cases move with
    | register path schema name => exact ih before
    | step op =>
      rw [next, ih before]
      cases closes : op.ends with
      | false => cases (outcome op.act (after settings volume moves).engine).1 <;> simp [failedAfter, closes]
      | true =>
        have upheld : Upheld _ (after settings volume moves).engine := upheld_after before
        obtain ⟨a, done⟩ := upheld.exists_ok_of_ends closes
        rw [done]
        simp [failedAfter, closes]

/-- Whatever has been done to tables that were each registered once: where only one transaction has locked pages, and
fewer of them than there may be in memory, a row of the table's columns that it inserts is stored, however many pages
are full and also where there is no page with room. Nothing but the page of the row is locked then that was not locked
before. That nobody else has changed a page need not be asked for, as whoever has changed one has locked it. -/
theorem insert_finds_room (settings : Settings) (volume : Volume) (moves : List Move)
    (once : ((moves.map Move.call).filterMap Call.table?).Pairwise TableSpec.Unlike)
    (txn : TxnId) (table : TableId) (entry : TableEntry) (row : Row) :
    let e := (after settings volume moves).engine
    e.catalog.find? table = some entry → row.schema.sameTypes entry.schema →
    (∀ p holder, holder ≠ txn → e.locks.mode? holder p = none) →
    (e.locks.heldBy txn).length < settings.poolPages →
    ∃ location e', insert txn table row e = .ok location e' ∧ location.page.table = table ∧
      (∃ page, e'.resident.get? location.page = some page ∧ page.dirtier = some txn ∧
        page.valuesAt location.slot = some row.values) ∧
      ∀ p, p ≠ location.page → e.locks.mode? txn p = none → e'.locks.mode? txn p = none := by
  intro e found fits alone fewer
  have kept := kept_after settings volume moves
  have upheld : Upheld _ e := upheld_after once
  have same : e.settings = settings := settings_after settings volume moves
  have uncrowded : Uncrowded txn e := by
    refine ⟨upheld.toSturdy, kept.regular, upheld.settled, fun p holder differs => alone p holder differs, ?_, ?_⟩
    · intro p page here dirty
      obtain ⟨holder, changes⟩ := Option.isSome_iff_exists.mp dirty
      have reserved := kept.owned here changes (by rw [failed_after once]; exact List.not_mem_nil)
      by_cases own : holder = txn
      · rw [← own, reserved]
        exact Option.some_ne_none _
      · exact absurd (reserved.symm.trans (alone p holder own)) (by simp)
    · refine ⟨(e.locks.heldBy txn).map Prod.fst, ?_, fun p held => ?_⟩
      · rw [List.length_map, same]
        exact fewer
      · obtain ⟨mode, held⟩ := Option.ne_none_iff_exists'.mp held
        refine List.mem_map.mpr ⟨(p, mode), ?_, rfl⟩
        exact List.mem_filterMap.mpr ⟨((p, txn), mode), (e.locks.grants.get?_eq_some_iff _ _).mp held, if_pos rfl⟩
  obtain ⟨location, e', done⟩ := uncrowded.insert_succeeds found fits
  have filled :=
    (@insert_fills (fun _ => True) e upheld.tidy txn row table trivial upheld.shelved upheld.roomy).of_ok done
  obtain ⟨on, e₁, -, filled⟩ := filled
  obtain ⟨page, -, inside, -, copies⟩ := filled.copies
  obtain ⟨-, only⟩ := (Engine.insert_takes txn kept.regular row table).of_ok done location rfl
  refine ⟨location, e', done, on, ⟨_, (copies location.page).trans (if_pos rfl), rfl, ?_⟩, fun p differs => only p ?_⟩
  · exact (page.valuesAt_putAt location.slot location.slot (some row.values) inside).trans (if_pos rfl)
  · exact fun same => differs (Option.some.inj same).symm

/-- Two pages in memory, of which each takes one number. -/
def slim : Settings := { pageSize := 5, poolPages := 2 }

/-- Three pages are full, and another transaction has the first of them in hand. -/
def crowded : List Move :=
  [.register "a.dat" number "t", .step (.insert ⟨1⟩ ⟨1⟩ number [.int 1]), .step (.commit ⟨1⟩),
    .step (.insert ⟨1⟩ ⟨1⟩ number [.int 2]), .step (.commit ⟨1⟩), .step (.insert ⟨1⟩ ⟨1⟩ number [.int 3]),
    .step (.commit ⟨1⟩), .step (.read ⟨2⟩ ⟨⟨1⟩, 0⟩ .shared)]

def fourthRow : Row := ⟨number, [.int 4], none⟩

/-- It looks at all of them, although there are never more than two in memory, and the file grows. -/
theorem fourth_row_finds_room :
    ∃ location e', insert ⟨2⟩ ⟨1⟩ fourthRow (after slim .empty crowded).engine = .ok location e' ∧
      location.page.table = ⟨1⟩ ∧
      (∃ page, e'.resident.get? location.page = some page ∧ page.dirtier = some ⟨2⟩ ∧
        page.valuesAt location.slot = some [.int 4]) ∧
      ∀ p, p ≠ location.page → (after slim .empty crowded).engine.locks.mode? ⟨2⟩ p = none →
        e'.locks.mode? ⟨2⟩ p = none := by
  have once : ((crowded.map Move.call).filterMap Call.table?).Pairwise TableSpec.Unlike := by decide +kernel
  have registered : ((after slim .empty crowded).engine.catalog.find? ⟨1⟩).map TableEntry.schema = some number := by
    decide +kernel
  obtain ⟨entry, found, columns⟩ := Option.map_eq_some_iff.mp registered
  have own : ∀ entry ∈ (after slim .empty crowded).engine.locks.grants.entries, entry.1.2 = ⟨2⟩ := by decide +kernel
  have alone : ∀ p holder, holder ≠ ⟨2⟩ → (after slim .empty crowded).engine.locks.mode? holder p = none := by
    intro p holder differs
    rw [Option.eq_none_iff_forall_ne_some]
    intro mode held
    exact differs (own _ ((FinMap.get?_eq_some_iff _ _ _).mp held))
  have fits : fourthRow.schema.sameTypes entry.schema := by
    rw [columns]
    decide +kernel
  exact insert_finds_room slim .empty crowded once ⟨2⟩ ⟨1⟩ entry fourthRow found fits alone (by decide +kernel)

/-- With as many pages in hand as there may be in memory there is no room for another. -/
example : (outcome (insert ⟨2⟩ ⟨1⟩ fourthRow)
    (after slim .empty (crowded ++ [.step (.read ⟨2⟩ ⟨⟨1⟩, 1⟩ .shared)])).engine).1.toOption = none := by
  decide +kernel

end Course

end RowStore
