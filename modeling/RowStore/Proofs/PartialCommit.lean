import RowStore.Proofs.Engine.Shelves
/-!
# How far a commit gets

A commit writes the changed pages one after another. It can fail only at a page whose table is registered no more,
and it stops at the first one it comes to. The pages before it are in their files by then and hold no changes any
more, so an abort afterwards drops only the others. Nothing is written and everything is dropped where that page
is the first, and everything is written where there is none.
-/

namespace RowStore

namespace Engine

variable {e e₁ e' : Engine} {p : PageId} {page : Page}

/-- The table of the page is registered. -/
def writable (e : Engine) (p : PageId) : Bool := (e.catalog.find? p.table).isSome

/-- The place in the file is none of the page. -/
def Beside (e : Engine) (name : String) (i : Nat) (p : PageId) : Prop :=
  e.volume.number? name = some p.table → i < p.number * e.settings.pageSize ∨ (p.number + 1) * e.settings.pageSize ≤ i

/-- These pages have gone to their files as they were in memory, and hold no changes any more. No other page and no
other byte is different. -/
structure Saved (pages : List PageId) (e e' : Engine) : Prop where
  settings : e'.settings = e.settings
  catalog : e'.catalog = e.catalog
  numbers : e'.volume.tables = e.volume.tables
  locks : e'.locks = e.locks
  resident : ∀ p, e'.resident.get? p =
    if p ∈ pages then (e.resident.get? p).map Page.markClean else e.resident.get? p
  stored : ∀ p ∈ pages, ∀ page, e.resident.get? p = some page →
    ∃ name, e.volume.number? name = some p.table ∧ e'.pageBytes name p.number = page.encode
  others : ∀ name i, (∀ p ∈ pages, e.Beside name i p) → (e'.volume.contents name)[i]? = (e.volume.contents name)[i]?

namespace Saved

theorem nil (e : Engine) : Saved [] e e where
  settings := rfl
  catalog := rfl
  numbers := rfl
  locks := rfl
  resident p := by simp
  stored p among := absurd among List.not_mem_nil
  others _ _ _ := rfl

section

variable {pages : List PageId} (saved : Saved pages e e')

include saved

theorem number?_eq : e'.volume.number? = e.volume.number? := by
  funext name
  rw [Volume.number?, Volume.number?, saved.numbers]

theorem beside_mono {name : String} {i : Nat} (beside : e.Beside name i p) : e'.Beside name i p := by
  rw [Beside, saved.number?_eq, saved.settings]
  exact beside

theorem pageBytes_eq_of_notMem (new : p ∉ pages) {name : String} (numbered : e.volume.number? name = some p.table) :
    e'.pageBytes name p.number = e.pageBytes name p.number := by
  rw [Engine.pageBytes, Engine.pageBytes, saved.settings]
  apply Bytes.region_congr
  intro i start stop
  rw [← Nat.succ_mul] at stop
  refine saved.others name i fun q among numbered' => apart_of_ne ?_ start stop
  intro number
  have table : p.table = q.table := Option.some.inj (numbered.symm.trans numbered')
  have same : p = q := by
    cases p
    cases q
    simp_all
  exact new (same ▸ among)

theorem cons (first : Saved [p] e₁ e) (new : p ∉ pages) : Saved (p :: pages) e₁ e' where
  settings := saved.settings.trans first.settings
  catalog := saved.catalog.trans first.catalog
  numbers := saved.numbers.trans first.numbers
  locks := saved.locks.trans first.locks
  resident q := by
    rw [saved.resident, first.resident]
    by_cases same : q = p
    · subst same
      simp [new]
    · simp [same]
  stored q among page here := by
    rcases List.mem_cons.mp among with rfl | among
    · obtain ⟨name, numbered, stored⟩ := first.stored q List.mem_cons_self page here
      exact ⟨name, numbered, by rw [saved.pageBytes_eq_of_notMem new (first.number?_eq ▸ numbered), stored]⟩
    · have differs : q ∉ [p] := fun same => new (List.mem_singleton.mp same ▸ among)
      have here' : e.resident.get? q = some page := by rw [first.resident, if_neg differs, here]
      obtain ⟨name, numbered, stored⟩ := saved.stored q among page here'
      exact ⟨name, first.number?_eq ▸ numbered, stored⟩
  others name i beside := by
    have later := saved.others name i fun q among => first.beside_mono (beside q (List.mem_cons_of_mem _ among))
    have before := first.others name i fun q same => beside q (List.mem_singleton.mp same ▸ List.mem_cons_self)
    exact later.trans before

end

end Saved

/-! ### One page after another -/

theorem writeBack_lost (lost : e.writable p = false) : writeBack p page e = .error (.unknownTable p.table) e := by
  have unknown : e.catalog.find? p.table = none := by simpa [writable] using lost
  have resolved : resolve p.table e = .error (.unknownTable p.table) e := by rw [resolve, unknown]
  show EStateM.bind (resolve p.table) _ e = _
  rw [EStateM.bind, resolved]

theorem writeBack_eq {entry : TableEntry} {g : TableFile} (found : e.catalog.find? p.table = some entry)
    (opened : e.files[entry.file]? = some g) (own : page.id.table = g.table) (inside : page.id.number < g.pages) :
    writeBack p page e = .ok () (e.settled entry.file g page) := by
  have resolved : resolve p.table e = .ok entry e := by rw [resolve, found]
  have openFile : openFile entry.file page.id.table e = .ok g e := by rw [openFile, opened]
  have written : writePage entry.file page e = .ok () (e.written entry.file g page) := by
    rw [writePage]
    show EStateM.bind (Engine.openFile entry.file page.id.table) _ e = _
    rw [EStateM.bind, openFile]
    dsimp only
    rw [get_bind_eq, TableFile.write_eq own inside]
    rfl
  show EStateM.bind (resolve p.table) _ e = _
  rw [EStateM.bind, resolved]
  show EStateM.bind (writePage entry.file page) _ e = _
  rw [EStateM.bind, written]
  rfl

/-- Nothing but the table's not being registered keeps a page from being written. -/
theorem Shelved.writeBack_known (shelved : e.Shelved) (here : e.resident.get? p = some page) (known : e.writable p) :
    ∃ e', writeBack p page e = .ok () e' ∧ Saved [p] e e' := by
  obtain ⟨entry, found⟩ := Option.isSome_iff_exists.mp known
  obtain ⟨g, opened, table, -, whole⟩ := shelved.current found
  have shelf := shelved.files opened
  have homed := shelved.pages here
  obtain ⟨name, numbered, inside⟩ := homed.inside
  have own : g.name = name := by
    have number := shelf.number
    rw [table] at number
    exact Volume.number?_inj number numbered
  rw [← own, ← whole, ← homed.id] at inside
  have owned : page.id.table = g.table := by rw [homed.id, table]
  refine ⟨e.settled entry.file g page, writeBack_eq found opened owned inside, ?_⟩
  have writes : g.write (e.contentsOf g) page = _ := TableFile.write_eq owned inside
  have contents : ∀ other, (e.settled entry.file g page).volume.contents other =
      if other = g.name then (e.contentsOf g).overwrite (g.offset page.id.number) page.encode
      else e.volume.contents other := fun other => e.volume.contents_put g.name other _
  refine ⟨rfl, rfl, rfl, rfl, ?_, ?_, ?_⟩
  · intro q
    rw [settled, homed.id, FinMap.get?_insert]
    by_cases same : q = p
    · rw [if_pos same, if_pos (List.mem_singleton.mpr same), same, here, Option.map_some]
    · rw [if_neg same, if_neg (fun among => same (List.mem_singleton.mp among))]
  · intro q among copy here'
    rw [List.mem_singleton.mp among] at here' ⊢
    cases here.symm.trans here'
    refine ⟨name, numbered, ?_⟩
    rw [pageBytes, contents, if_pos own.symm]
    exact shelved.region_written_self here opened writes
  · intro other i beside
    rw [contents]
    split
    · rename_i same
      have apart := beside p List.mem_cons_self (by rw [same, own, numbered])
      rw [shelved.getElem?_written here opened writes apart, contentsOf, same]
    · rfl

/-- What comes of going through the pages in that order. -/
def verdict (e : Engine) (order : List PageId) : Except Fault Unit :=
  match order.find? fun p => !e.writable p with
  | none => .ok ()
  | some p => .error (.unknownTable p.table)

/-- The pages are written up to the first one whose table is not registered. -/
theorem flushEach_saves (shelved : e.Shelved) (tidy : e.Tidy) {order : List PageId} (once : order.Nodup)
    (dirty : ∀ p ∈ order, ∃ page, e.resident.get? p = some page ∧ page.isDirty) :
    Ensures (flushEach order) e fun answer e' =>
      answer = e.verdict order ∧ Saved (order.takeWhile e.writable) e e' := by
  induction order generalizing e with
  | nil => exact .pure ⟨rfl, .nil e⟩
  | cons p rest ih =>
    obtain ⟨page, here, changed⟩ := dirty p List.mem_cons_self
    obtain ⟨new, once⟩ := List.nodup_cons.mp once
    have flushed := flush_of_dirty here changed
    cases known : e.writable p with
    | false =>
      have step : flushEach (p :: rest) e = .error (.unknownTable p.table) e := by
        show EStateM.bind (flush p) _ e = _
        rw [EStateM.bind, flushed, writeBack_lost known]
      rw [Ensures, step, verdict, List.find?_cons, known, List.takeWhile_cons, known]
      exact ⟨rfl, .nil e⟩
    | true =>
      obtain ⟨e₁, done, saved⟩ := shelved.writeBack_known here known
      rw [← flushed] at done
      obtain ⟨tidy₁, effects⟩ := (flush_unfolds p e tidy).of_ok done
      have writable : e₁.writable = e.writable := by
        funext q
        rw [Engine.writable, Engine.writable, saved.catalog]
      have step : flushEach (p :: rest) e = flushEach rest e₁ := by
        show EStateM.bind (flush p) _ e = _
        rw [EStateM.bind, done]
      have dirty₁ : ∀ q ∈ rest, ∃ page, e₁.resident.get? q = some page ∧ page.isDirty := by
        intro q later
        have differs : q ∉ [p] := fun same => new (List.mem_singleton.mp same ▸ later)
        rw [saved.resident, if_neg differs]
        exact dirty q (List.mem_cons_of_mem _ later)
      refine .congr step ((ih (preserved_of_effects Shelved.shelved_of_effect effects shelved) tidy₁ once dirty₁).mono
        ?_)
      rintro answer e' ⟨answered, later⟩
      rw [writable] at later
      rw [verdict, List.find?_cons, known, List.takeWhile_cons, known]
      refine ⟨?_, later.cons saved fun among => new ((List.takeWhile_sublist _).mem among)⟩
      rw [answered, verdict, writable]
      rfl

/-! ### The end of the transaction -/

/-- The commit that goes through the changed pages in that order. -/
def commitIn (txn : TxnId) (order : List PageId) : Action Unit := ending txn (flushEach order)

theorem commit_eq (txn : TxnId) (e : Engine) : commit txn e = commitIn txn (e.dirtyPages txn) e := by
  have counted : flushPages txn e =
      EStateM.bind (flushEach (e.dirtyPages txn)) (fun _ => pure (e.dirtyPages txn).length) e := rfl
  have uncounted : (do let _ ← flushPages txn : Action Unit) e = flushEach (e.dirtyPages txn) e := by
    show EStateM.bind (flushPages txn) _ e = _
    rw [EStateM.bind, counted, EStateM.bind]
    cases flushEach (e.dirtyPages txn) e <;> rfl
  rw [commit, commitIn, ending, ending, uncounted]

theorem discardEach_drops (pages : List PageId) (e : Engine) : Ensures (discardEach pages) e fun answer e' =>
    answer = .ok () ∧ e'.settings = e.settings ∧ e'.volume = e.volume ∧
      ∀ p, e'.resident.get? p = if p ∈ pages then none else e.resident.get? p := by
  induction pages generalizing e with
  | nil => exact .pure ⟨rfl, rfl, rfl, by simp⟩
  | cons p rest ih =>
    have step : discardEach (p :: rest) e = discardEach rest (e.dropped p) := rfl
    refine .congr step ((ih (e.dropped p)).mono ?_)
    rintro answer e' ⟨done, settings, volume, resident⟩
    refine ⟨done, settings, volume, fun q => ?_⟩
    rw [resident, dropped, FinMap.get?_erase]
    by_cases same : q = p
    · simp [same]
    · simp [same]

/-- An abort cannot fail, and drops the pages with changes of the transaction. -/
theorem abort_drops (txn : TxnId) (e : Engine) : ∃ e', abort txn e = .ok () e' ∧ e'.settings = e.settings ∧
    e'.volume = e.volume ∧
    ∀ p, e'.resident.get? p = if p ∈ e.dirtyPages txn then none else e.resident.get? p := by
  have ensured : Ensures (abort txn) e fun answer e' => answer = .ok () ∧ e'.settings = e.settings ∧
      e'.volume = e.volume ∧ ∀ p, e'.resident.get? p = if p ∈ e.dirtyPages txn then none else e.resident.get? p :=
    ending_ensures txn (.get_bind (discardEach_drops (e.dirtyPages txn) e))
  obtain ⟨_, e', done⟩ := (ensured.mono fun _ _ holds => ⟨(), holds.1⟩).exists_ok
  exact ⟨e', done, (ensured.of_ok done).2⟩

theorem nodup_dirtyPages (txn : TxnId) (e : Engine) : (e.dirtyPages txn).Nodup :=
  (List.mergeSort_perm _ _).nodup_iff.mpr (FinMap.nodup_keys _)

theorem Saved.saved_releaseAll {pages : List PageId} (saved : Saved pages e e') (txn : TxnId) :
    Saved pages (e.releaseAll txn) (e'.releaseAll txn) :=
  ⟨saved.settings, saved.catalog, saved.numbers, congrArg (LockTable.releaseAll · txn) saved.locks, saved.resident,
    saved.stored, saved.others⟩

/-- The changes of the transaction that are left are those on the pages that have not been written. -/
theorem Saved.mem_dirtyPages_iff {pages : List PageId} (saved : Saved pages e e') (txn : TxnId) (p : PageId) :
    p ∈ e'.dirtyPages txn ↔ p ∈ e.dirtyPages txn ∧ p ∉ pages := by
  rw [mem_dirtyPages_iff_resident, mem_dirtyPages_iff_resident, saved.resident]
  by_cases among : p ∈ pages
  · rw [if_pos among]
    refine ⟨?_, fun left => absurd among left.2⟩
    rintro ⟨page, here, dirty⟩
    obtain ⟨before, -, rfl⟩ := Option.map_eq_some_iff.mp here
    exact absurd dirty (by simp [Page.markClean])
  · rw [if_neg among]
    exact ⟨fun dirty => ⟨dirty, among⟩, And.left⟩

theorem commitIn_saves (shelved : e.Shelved) (tidy : e.Tidy) {txn : TxnId} {order : List PageId}
    (visits : order.Perm (e.dirtyPages txn)) : Ensures (commitIn txn order) e fun answer e' =>
      answer = e.verdict order ∧ Saved (order.takeWhile e.writable) (e.releaseAll txn) e' := by
  have dirty : ∀ p ∈ order, ∃ page, e.resident.get? p = some page ∧ page.isDirty := by
    intro p among
    obtain ⟨page, here, dirty⟩ := (e.mem_dirtyPages_iff_resident txn p).mp (visits.mem_iff.mp among)
    exact ⟨page, here, by rw [Page.isDirty, dirty]; rfl⟩
  have once : order.Nodup := visits.nodup_iff.mpr (nodup_dirtyPages txn e)
  exact ending_ensures txn ((flushEach_saves shelved tidy once dirty).mono
    fun _ _ done => ⟨done.1, done.2.saved_releaseAll txn⟩)

/-! ### A page that is read again -/

/-- A page that is not in memory is read from its file. -/
theorem Shelved.getPage_of_absent (shelved : e.Shelved) (absent : e.resident.get? p = none) (txn : TxnId)
    (mode : LockMode) : Ensures (getPage txn p mode) e fun answer _ => ∀ page, answer = .ok page →
      ∃ entry name, e.catalog.find? p.table = some entry ∧ e.volume.number? name = some p.table ∧
        Page.decode? p entry.schema (e.pageBytes name p.number) = some page := by
  refine (lock_ensures txn p mode).bind ?_ (by simp)
  rintro _ e₁ ⟨-, rfl⟩
  refine .get_bind ?_
  simp only [absent]
  have made : Ensures makeRoom { e with locks := e.locks.grant ⟨txn, p, mode⟩ } fun _ e₂ =>
      ∃ resident recency locks, e₂ = { e with resident, recency, locks } := by
    refine (makeRoom_drops _).mono ?_
    rintro _ e₂ (rfl | ⟨victim, recency, rfl⟩) <;> exact ⟨_, _, _, rfl⟩
  refine made.bind ?_ (by simp)
  rintro _ e₂ ⟨resident, recency, locks, rfl⟩
  refine (resolve_ensures p.table).bind ?_ (by simp)
  rintro entry e₃ ⟨rfl, found⟩
  refine (readPage_ok entry.file p _).bind ?_ (by simp)
  rintro page e₄ ⟨g, g', opened, reads, rfl⟩
  obtain ⟨own, -, -, decoded, -⟩ := TableFile.read_eq_ok_iff.mp reads
  obtain ⟨g₀, opened₀, -, schema, -⟩ := shelved.current found
  cases opened.symm.trans opened₀
  have shelf := shelved.files opened
  rw [schema, TableFile.offset, shelf.pageSize] at decoded
  rintro page' ⟨⟩
  exact ⟨entry, g.name, found, by rw [own]; exact shelf.number, decoded⟩

end Engine

open Engine

namespace Course

/-- In whatever order the changed pages are gone through, a commit writes those before the first one whose table
is registered no more, fails there if there is one, and changes nothing else. An abort afterwards drops the pages
that have not been written, and a reader finds them as they were in the files before; those that have been written
stay. So nothing at all has been written if the first page cannot be. -/
theorem commits_stop_at_a_lost_table (settings : Settings) (volume : Volume) (moves : List Move) (txn : TxnId)
    (order : List PageId) (visits : order.Perm ((after settings volume moves).engine.dirtyPages txn)) :
    let e := (after settings volume moves).engine
    let written := order.takeWhile e.writable
    commit txn e = commitIn txn (e.dirtyPages txn) e ∧
    ∃ e₁ e₂, outcome (commitIn txn order) e = (e.verdict order, e₁) ∧ Saved written (e.releaseAll txn) e₁ ∧
      (written = [] → ∀ name, e₁.volume.contents name = e.volume.contents name) ∧
      abort txn e₁ = .ok () e₂ ∧ e₂.volume = e₁.volume ∧
      (∀ p, e₂.resident.get? p = if p ∈ order ∧ p ∉ written then none else e₁.resident.get? p) ∧
      ∀ p ∈ order, p ∉ written → ∀ reader mode page e₃, getPage reader p mode e₂ = .ok page e₃ →
        ∃ entry name, e.catalog.find? p.table = some entry ∧ e.volume.number? name = some p.table ∧
          Page.decode? p entry.schema (e.pageBytes name p.number) = some page := by
  intro e written
  have tidy : e.Tidy := (kept_after settings volume moves).regular.tidy
  have shelved : e.Shelved := shelved_after settings volume moves
  obtain ⟨answered, saved⟩ := (commitIn_saves shelved tidy visits).outcome
  obtain ⟨tidy₁, effects₁⟩ := (ending_unfolds (flushEach_unfolds order) txn e tidy).outcome
  generalize came : outcome (commitIn txn order) e = result at answered saved
  change outcome (ending txn (flushEach order)) e = result at came
  rw [came] at tidy₁ effects₁
  obtain ⟨answer, e₁⟩ := result
  obtain rfl : answer = e.verdict order := answered
  obtain ⟨e₂, aborted, settings₂, volume₂, resident₂⟩ := abort_drops txn e₁
  have left : ∀ p, p ∈ e₁.dirtyPages txn ↔ p ∈ order ∧ p ∉ written := fun p =>
    (saved.mem_dirtyPages_iff txn p).trans (and_congr_left' visits.mem_iff.symm)
  refine ⟨commit_eq txn e, e₁, e₂, rfl, saved, ?_, aborted, volume₂, ?_, ?_⟩
  · intro none name
    apply List.ext_getElem?
    intro i
    exact saved.others name i (by simp [show order.takeWhile e.writable = [] from none])
  · intro p
    rw [resident₂]
    simp only [left]
  · intro p among unwritten reader mode page e₃ got
    obtain ⟨-, effects₂⟩ := (abort_unfolds txn e₁ tidy₁).of_ok aborted
    have shelved₂ := preserved_of_effects Shelved.shelved_of_effect (effects₁.trans effects₂) shelved
    have absent : e₂.resident.get? p = none := by rw [resident₂, if_pos ((left p).mpr ⟨among, unwritten⟩)]
    obtain ⟨entry, name, found, numbered, decoded⟩ :=
      (shelved₂.getPage_of_absent absent reader mode).of_ok got page rfl
    rw [catalog_of_effects (effects₁.trans effects₂)] at found
    rw [volume₂, saved.number?_eq] at numbered
    have bytes : e₂.pageBytes name p.number = e₁.pageBytes name p.number := by
      rw [pageBytes, pageBytes, settings₂, volume₂]
    rw [bytes, saved.pageBytes_eq_of_notMem unwritten numbered] at decoded
    exact ⟨entry, name, found, numbered, decoded⟩

/-- There are numbers in two tables, and another file takes the name of the second. -/
def halfLost : List Move :=
  [.register "a.dat" number "a", .register "b.dat" number "b", .step (.insert ⟨1⟩ ⟨1⟩ number [.int 7]),
    .step (.insert ⟨1⟩ ⟨2⟩ number [.int 8]), .register "c.dat" number "b"]

theorem dirtyPages_halfLost :
    (after small .empty halfLost).engine.dirtyPages ⟨1⟩ = [⟨⟨1⟩, 0⟩, ⟨⟨2⟩, 0⟩] := by
  have keys : ((after small .empty halfLost).engine.resident.filter
      fun _ page => decide (page.dirtier = some ⟨1⟩)).keys = [⟨⟨2⟩, 0⟩, ⟨⟨1⟩, 0⟩] := by decide +kernel
  rw [Engine.dirtyPages, keys]
  cbv

/-- The commit fails at the second number. Then the first one is in its file, where there was none before, and
whoever looks after the abort finds it. -/
theorem number_of_a_failed_commit_stays :
    let e := (after small .empty halfLost).engine
    let e₁ := (outcome (commit ⟨1⟩) e).2
    let e₂ := (outcome (abort ⟨1⟩) e₁).2
    (outcome (commit ⟨1⟩) e).1.toOption = none ∧ (outcome (abort ⟨1⟩) e₁).1.toOption = some () ∧
      e₁.volume.contents "a.dat" ≠ e.volume.contents "a.dat" ∧
      (e.stored? ⟨⟨1⟩, 0⟩).map (Page.valuesAt · 0) = some none ∧
      (outcome (getPage ⟨2⟩ ⟨⟨1⟩, 0⟩ .shared) e₂).1.toOption.map (Page.valuesAt · 0) = some (some [.int 7]) := by
  have ordered : outcome (commit ⟨1⟩) (after small .empty halfLost).engine =
      outcome (commitIn ⟨1⟩ [⟨⟨1⟩, 0⟩, ⟨⟨2⟩, 0⟩]) (after small .empty halfLost).engine := by
    rw [outcome, outcome, commit_eq, dirtyPages_halfLost]
  dsimp only
  rw [ordered]
  refine ⟨?_, ?_, ?_, ?_, ?_⟩ <;> decide +kernel

/-- Had the second page been gone to first, nothing would be there. -/
theorem nothing_stays_where_the_lost_page_is_first :
    let e := (after small .empty halfLost).engine
    ∃ e₁ e₂, outcome (commitIn ⟨1⟩ [⟨⟨2⟩, 0⟩, ⟨⟨1⟩, 0⟩]) e = (.error (.unknownTable ⟨2⟩), e₁) ∧
      (∀ name, e₁.volume.contents name = e.volume.contents name) ∧ abort ⟨1⟩ e₁ = .ok () e₂ ∧
      e₂.volume = e₁.volume ∧ e₂.resident.get? ⟨⟨1⟩, 0⟩ = none := by
  intro e
  have visits : [⟨⟨2⟩, 0⟩, ⟨⟨1⟩, 0⟩].Perm (e.dirtyPages ⟨1⟩) := dirtyPages_halfLost ▸ .swap ..
  have lost : e.writable ⟨⟨2⟩, 0⟩ = false := by decide +kernel
  obtain ⟨-, e₁, e₂, failed, -, untouched, aborted, volume, dropped, -⟩ :=
    commits_stop_at_a_lost_table small .empty halfLost ⟨1⟩ _ visits
  have none : [⟨⟨2⟩, 0⟩, ⟨⟨1⟩, 0⟩].takeWhile e.writable = [] := by rw [List.takeWhile_cons, lost]; rfl
  have verdict : e.verdict [⟨⟨2⟩, 0⟩, ⟨⟨1⟩, 0⟩] = .error (.unknownTable ⟨2⟩) := by
    rw [Engine.verdict, List.find?_cons, lost]
    rfl
  have gone : (⟨⟨1⟩, 0⟩ : PageId) ∉ [⟨⟨2⟩, 0⟩, ⟨⟨1⟩, 0⟩].takeWhile e.writable := by
    rw [none]
    exact List.not_mem_nil
  refine ⟨e₁, e₂, failed.trans (congrArg (·, e₁) verdict), untouched none, aborted, volume, ?_⟩
  rw [dropped, if_pos ⟨by decide, gone⟩]

end Course

end RowStore
