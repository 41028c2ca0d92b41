import RowStore.Proofs.Agreement
import RowStore.Proofs.Engine.Glances
import RowStore.Proofs.PartialCommit
import RowStore.Proofs.Registering
/-!
# Writes that fail

An insert or a delete that fails has looked at pages, and an insert may have added one. What it has looked at it has not
changed, so a reader finds every page as it was, but for one thing: a page without changes may have been given up to
make room, and then it is read from its file again. Nothing is different then either, unless the page is one that
somebody else wrote and a text on it is longer than its column. Such a text is cut when the page is written, and the
page that is in memory afterwards is not the one that is read again.
-/

namespace RowStore

/-- On the page is a row with a value that its column has no room for. -/
def Page.Overlong (page : Page) : Prop := ∃ values, some values ∈ page.slots ∧ ¬Row.Fits values page.schema.types

theorem Page.Shaped.reread_eq {page : Page} (shaped : page.Shaped) (clean : page.dirtier = none)
    (fitting : ¬page.Overlong) : page.reread = page := by
  have sound : page.Sound := by
    refine ⟨shaped.slots, shaped.spare, fun values used => ?_⟩
    by_contra long
    exact fitting ⟨values, used, long⟩
  rw [sound.reread_eq_markClean, markClean, ← clean]

namespace Engine

/-- The pages in memory are of registered tables, and those without changes are what their files have, or have become
that when they were written. -/
structure Settled (e : Engine) : Prop where
  known : ∀ {p page}, e.resident.get? p = some page →
    ∃ entry, e.catalog.find? p.table = some entry ∧ page.schema = entry.schema
  clean : ∀ {p page}, e.resident.get? p = some page → page.dirtier = none →
    e.stored? p = some page ∨ e.stored? p = some page.reread

variable {e e' : Engine}

namespace Shelved

variable (shelved : e.Shelved)

include shelved

theorem schema_of_stored {p : PageId} {page : Page} (stored : e.stored? p = some page) :
    ∃ entry, e.catalog.find? p.table = some entry ∧ page.schema = entry.schema := by
  obtain ⟨f, file, inside⟩ := stored?_inside e p page stored
  obtain ⟨entry, found, schema⟩ := (shelved.filed_of_fileOf? file).schema
  rw [shelved.stored?_eq file, if_pos inside] at stored
  obtain ⟨-, -, same, -⟩ := Page.of_decode?_eq_some stored
  exact ⟨entry, found, same.trans schema.symm⟩

theorem stored?_of_homed {p : PageId} {page : Page} {entry : TableEntry} {name : String} (homed : e.Homed p page)
    (found : e.catalog.find? p.table = some entry) (numbered : e.volume.number? name = some p.table) :
    e.stored? p = Page.decode? p entry.schema (e.pageBytes name p.number) := by
  obtain ⟨g, opened, -, schema, -⟩ := shelved.current found
  have file : e.fileOf? p.table = some g.unread := (e.fileOf?_eq_some_iff _ _).mpr ⟨entry, g, found, opened, rfl⟩
  have filed := shelved.filed_of_fileOf? file
  obtain rfl : g.name = name := Volume.number?_inj filed.number numbered
  obtain ⟨name, numbered', inside⟩ := homed.inside
  obtain rfl : g.name = name := Volume.number?_inj filed.number numbered'
  have inside' : p.number < g.unread.pages := by rwa [filed.pages]
  rw [shelved.stored?_eq file, if_pos inside', ← schema]
  rfl

end Shelved

namespace Settled

theorem settled_start (settings : Settings) (volume : Volume) : (start settings volume).Settled where
  known here := absurd here (by simp [Engine.start])
  clean here := absurd here (by simp [Engine.start])

variable (settled : e.Settled)

include settled

/-- All that is in memory was there or is what its file had, and the files of these pages are the same. -/
theorem of_copies (shelved : e.Shelved)
    (catalog : ∀ {table entry}, e.catalog.find? table = some entry → e'.catalog.find? table = some entry)
    (copies : ∀ p page, e'.resident.get? p = some page →
      e'.stored? p = e.stored? p ∧ (e.resident.get? p = some page ∨ e.stored? p = some page)) : e'.Settled := by
  refine ⟨fun {p page} here => ?_, fun {p page} here clean => ?_⟩
  · obtain ⟨-, before | stored⟩ := copies p page here
    · obtain ⟨entry, found, schema⟩ := settled.known before
      exact ⟨entry, catalog found, schema⟩
    · obtain ⟨entry, found, schema⟩ := shelved.schema_of_stored stored
      exact ⟨entry, catalog found, schema⟩
  · obtain ⟨same, before | stored⟩ := copies p page here
    · rw [same]
      exact settled.clean before clean
    · rw [same]
      exact .inl stored

theorem settled_of_glanced {mine : TableId → Prop} (shelved : e.Shelved) (glanced : Glanced mine e e') :
    e'.Settled := by
  refine settled.of_copies shelved (by rw [glanced.catalog]; exact id) fun p page here => ?_
  exact ⟨glanced.stored?_kept p, (glanced.copies p).held_before here⟩

theorem settled_of_lengthened {table : TableId} {f : TableFile} (shelved : e.Shelved)
    (longer : Lengthened table f e e') :
    e'.Settled := by
  refine settled.of_copies shelved (by rw [longer.catalog]; exact id) fun p page here => ?_
  rw [longer.resident] at here
  refine ⟨?_, .inl here⟩
  rw [longer.stored?, if_neg]
  rintro rfl
  exact absurd ((shelved.absent_of_past longer.file (Nat.le_refl _)).symm.trans here) (by simp)

theorem settled_of_rewritten {txn : TxnId} {p : PageId} (rewritten : Rewritten txn p e e') : e'.Settled := by
  obtain ⟨page, changed, before, schema, dirty, copies⟩ := rewritten.copies
  refine ⟨fun {q found} here => ?_, fun {q found} here clean => ?_⟩ <;> rw [copies] at here
  · rw [rewritten.catalog]
    split at here
    · rename_i same
      cases here
      obtain ⟨entry, known, columns⟩ := settled.known before
      exact ⟨entry, same ▸ known, schema.trans columns⟩
    · exact settled.known here
  · rw [rewritten.stored?_kept]
    split at here
    · cases here
      exact absurd (clean.symm.trans dirty) (by simp)
    · exact settled.clean here clean

theorem settled_of_stepped {mine : TableId → Prop} {txn : TxnId} (shelved : e.Shelved)
    (stepped : Stepped mine txn e e') :
    e'.Settled := by
  obtain ⟨e₁, searched, rest⟩ := stepped
  have settled₁ : e₁.Settled := by
    cases searched with
    | among glanced => exact settled.settled_of_glanced shelved glanced
    | beyond own f e₂ e₃ before longer after =>
      have shelved₂ := shelved.shelved_of_glanced before
      exact ((settled.settled_of_glanced shelved before).settled_of_lengthened shelved₂ longer).settled_of_glanced
        longer.shelved after
  rcases rest with rfl | ⟨p, -, rewritten⟩
  · exact settled₁
  · exact settled₁.settled_of_rewritten rewritten

theorem settled_of_saved {pages : List PageId} (shelved : e.Shelved) (shelved' : e'.Shelved)
    (saved : Saved pages e e') :
    e'.Settled := by
  have numbers := saved.number?_eq
  have copy : ∀ {p page}, e'.resident.get? p = some page → ∃ before, e.resident.get? p = some before ∧
      page.schema = before.schema ∧ (p ∉ pages → page = before) := by
    intro p page here
    rw [saved.resident] at here
    split at here
    · obtain ⟨before, found, rfl⟩ := Option.map_eq_some_iff.mp here
      exact ⟨before, found, rfl, fun outside => absurd ‹p ∈ pages› outside⟩
    · exact ⟨page, here, rfl, fun _ => rfl⟩
  refine ⟨fun {p page} here => ?_, fun {p page} here clean => ?_⟩
  · obtain ⟨before, found, schema, -⟩ := copy here
    obtain ⟨entry, known, columns⟩ := settled.known found
    exact ⟨entry, saved.catalog ▸ known, schema.trans columns⟩
  · obtain ⟨before, found, schema, same⟩ := copy here
    obtain ⟨entry, known, columns⟩ := settled.known found
    have homed := shelved.pages found
    have known' : e'.catalog.find? p.table = some entry := saved.catalog ▸ known
    by_cases among : p ∈ pages
    · obtain ⟨name, numbered, written⟩ := saved.stored p among before found
      rw [saved.resident, if_pos among, found] at here
      cases here
      right
      rw [shelved'.stored?_of_homed (shelved'.pages (by rw [saved.resident, if_pos among, found]; rfl)) known'
        (numbers ▸ numbered), written, ← columns, ← homed.id]
      exact homed.shaped.decode?_encode
    · obtain rfl := same among
      obtain ⟨name, numbered, -⟩ := homed.inside
      rw [shelved'.stored?_of_homed (shelved'.pages here) known' (numbers ▸ numbered), saved.pageBytes_eq_of_notMem
        among numbered,
        ← shelved.stored?_of_homed homed known numbered]
      exact settled.clean found clean

theorem settled_of_fewer_pages (shelved : e.Shelved) (shelved' : e'.Shelved) (settings : e'.settings = e.settings)
    (volume : e'.volume = e.volume) (catalog : e'.catalog = e.catalog)
    (resident : ∀ p page, e'.resident.get? p = some page → e.resident.get? p = some page) : e'.Settled := by
  refine settled.of_copies shelved (by rw [catalog]; exact id) fun p page here => ?_
  have before := resident p page here
  refine ⟨?_, .inl before⟩
  obtain ⟨entry, known, -⟩ := settled.known before
  obtain ⟨name, numbered, -⟩ := (shelved.pages before).inside
  rw [shelved.stored?_of_homed (shelved.pages before) known numbered, shelved'.stored?_of_homed (shelved'.pages here)
    (catalog ▸ known) (volume ▸ numbered), pageBytes, pageBytes, settings, volume]

/-! ### Any step -/

theorem commit_settles (sturdy : e.Sturdy) (txn : TxnId) :
    Ensures (Engine.commit txn) e fun _ e' => e'.Shelved → e'.Settled := by
  refine .congr (commit_eq txn e) ((commitIn_saves sturdy.shelved sturdy.tidy (.refl _)).mono ?_)
  rintro answer e' ⟨-, saved⟩ shelved'
  have released : (e.releaseAll txn).Settled := ⟨settled.known, settled.clean⟩
  exact released.settled_of_saved (sturdy.shelved.shelved_of_effect (.aside e.recency (e.locks.releaseAll txn)))
    shelved' saved

theorem abort_settles (sturdy : e.Sturdy) (txn : TxnId) :
    Ensures (Engine.abort txn) e fun _ e' => e'.Shelved → e'.Settled := by
  obtain ⟨e', done, settings, volume, resident⟩ := abort_drops txn e
  obtain ⟨-, effects⟩ := (abort_unfolds txn e sturdy.tidy).of_ok done
  rw [Ensures, done]
  refine fun shelved' => settled.settled_of_fewer_pages sturdy.shelved shelved' settings volume
    (catalog_of_effects effects) ?_
  intro p page here
  rw [resident] at here
  split at here
  · exact absurd here (by simp)
  · exact here

theorem act_settles (sturdy : e.Sturdy) (op : Op) : Ensures op.act e fun _ e' => e'.Shelved → e'.Settled := by
  cases closes : op.ends with
  | false =>
    have steps : Ensures op.act e fun _ e' => Stepped (fun _ => True) op.txn e e' :=
      op.act_steps sturdy (fun _ _ => trivial) closes
    exact steps.mono fun _ _ stepped _ => settled.settled_of_stepped sturdy.shelved stepped
  | true =>
    obtain ⟨txn, rfl | rfl⟩ := Op.eq_of_ends closes
    · exact (settled.commit_settles sturdy txn).bind (fun _ _ done => .pure done) fun _ _ failed => failed
    · exact (settled.abort_settles sturdy txn).bind (fun _ _ done => .pure done) fun _ _ failed => failed

end Settled

/-! ### Whatever has been asked of the store -/

/-- The tables of these registrations are in order, and nothing is in memory that their files do not account for. -/
structure Upheld (tables : List TableSpec) (e : Engine) : Prop extends Sturdy e where
  settled : e.Settled
  paired : e.catalog.Paired
  registered : ∀ {table entry}, e.catalog.find? table = some entry → ∃ t ∈ tables, t.name = entry.name ∧
    ∃ name, t.fileName? = some name ∧ e.volume.number? name = some table

namespace Upheld

theorem upheld_start (settings : Settings) (volume : Volume) : Upheld [] (start settings volume) where
  toSturdy := .sturdy_start settings volume
  settled := .settled_start settings volume
  paired := Catalog.paired_empty
  registered found := absurd found (by simp [Engine.start, Catalog.find?, Catalog.empty])

variable {tables : List TableSpec} (upheld : Upheld tables e)

include upheld

theorem of_effects (tidy : e'.Tidy) (effects : Effects e e') (settled : e'.Shelved → e'.Settled) :
    Upheld tables e' := by
  have sturdy := upheld.toSturdy.of_effects tidy effects
  have catalog := catalog_of_effects effects
  refine ⟨sturdy, settled sturdy.shelved, by rw [catalog]; exact upheld.paired, ?_⟩
  intro table entry found
  rw [catalog] at found
  obtain ⟨t, among, named, name, leads, numbered⟩ := upheld.registered found
  refine ⟨t, among, named, name, leads, ?_⟩
  rw [Volume.number?, (settings_of_effects effects).2]
  exact numbered

theorem mono {tables' : List TableSpec} (more : tables ⊆ tables') : Upheld tables' e where
  toSturdy := upheld.toSturdy
  settled := upheld.settled
  paired := upheld.paired
  registered found := by
    obtain ⟨t, among, rest⟩ := upheld.registered found
    exact ⟨t, more among, rest⟩

theorem act_upholds (op : Op) : Ensures op.act e fun _ e' => Upheld tables e' := by
  refine ((op.act_unfolds e upheld.tidy).and (upheld.settled.act_settles upheld.toSturdy op)).mono ?_
  rintro answer e' ⟨⟨tidy, effects⟩, settled⟩
  exact upheld.of_effects tidy effects settled

/-! ### Pages -/

theorem flush_upholds (p : PageId) : Ensures (flush p) e fun _ e' => Upheld tables e' := by
  have saves : Ensures (Engine.flush p) e fun _ e' => e'.Shelved → e'.Settled := by
    rcases e.flush_cases p with ⟨same, -⟩ | ⟨page, txn, here, -, same⟩
    · rw [Ensures, same]
      exact fun _ => upheld.settled
    · rw [Ensures, same]
      cases known : e.writable p with
      | false =>
        rw [writeBack_lost known]
        exact fun _ => upheld.settled
      | true =>
        obtain ⟨e', done, saved⟩ := upheld.shelved.writeBack_known here known
        rw [done]
        exact fun shelved' => upheld.settled.settled_of_saved upheld.shelved shelved' saved
  exact ((flush_unfolds p e upheld.tidy).and saves).mono fun _ _ done => upheld.of_effects done.1.1 done.1.2 done.2

theorem flushEach_upholds (pages : List PageId) : Ensures (flushEach pages) e fun _ e' => Upheld tables e' := by
  induction pages generalizing e with
  | nil => exact .pure upheld
  | cons p rest ih => exact (upheld.flush_upholds p).bind (fun _ _ done => ih done) fun _ _ failed => failed

theorem discard_upholds (p : PageId) : Ensures (discard p) e fun _ e' => Upheld tables e' := by
  refine upheld.of_effects (upheld.tidy.orderly_forget p).tidy (effects_dropped e p (e.recency.forget p)) fun
    shelved' => ?_
  refine upheld.settled.settled_of_fewer_pages upheld.shelved shelved' rfl rfl rfl fun q page here => ?_
  rw [FinMap.get?_erase] at here
  split at here
  · exact absurd here (by simp)
  · exact here

theorem unlock_upholds (txn : TxnId) (p : PageId) : Ensures (unlock txn p) e fun _ e' => Upheld tables e' := by
  obtain ⟨tidy, effects⟩ := (unlockUnless_unfolds false txn p e upheld.tidy).outcome
  exact upheld.of_effects tidy effects fun _ => ⟨upheld.settled.known, upheld.settled.clean⟩

end Upheld

end Engine

/-- The two registrations are not of one file and not under one name. -/
structure TableSpec.Unlike (t u : TableSpec) : Prop where
  file : ∀ name, t.fileName? = some name → u.fileName? ≠ some name
  name : t.name ≠ u.name

instance (t u : TableSpec) : Decidable (t.Unlike u) :=
  decidable_of_iff ((t.fileName? = none ∨ t.fileName? ≠ u.fileName?) ∧ t.name ≠ u.name) <| by
    refine Iff.trans (and_congr_left' ?_) ⟨fun both => ⟨both.1, both.2⟩, fun unlike => ⟨unlike.file, unlike.name⟩⟩
    cases t.fileName? <;> simp [eq_comm]

namespace Engine

theorem Upheld.upheld_added {tables : List TableSpec} {e : Engine} (upheld : Upheld tables e) (t : TableSpec)
    (unlike : ∀ u ∈ tables, u.Unlike t) {fileName : String} (leads : t.fileName? = some fileName)
    (some : 0 < Page.capacity e.settings.pageSize t.schema) :
    Upheld (t :: tables) (e.added t.schema t.name fileName) := by
  let number := (e.volume.openTable fileName).1
  have longer := e.longer_added t.schema t.name fileName
  have others : ∀ {table entry}, e.catalog.find? table = Option.some entry → table ≠ number ∧ entry.name ≠ t.name := by
    intro table entry found
    obtain ⟨u, among, named, name, leads', numbered⟩ := upheld.registered found
    refine ⟨?_, named ▸ (unlike u among).name⟩
    rintro rfl
    have same := Volume.number?_inj (longer.number numbered) (e.volume.number?_openTable_self fileName)
    exact (unlike u among).file name leads' (same ▸ leads)
  have catalog : ∀ {table entry}, e.catalog.find? table = Option.some entry →
      (e.added t.schema t.name fileName).catalog.find? table = Option.some entry := by
    intro table entry found
    obtain ⟨differs, named⟩ := others found
    exact (upheld.paired.find?_register number table ⟨e.files.length, t.schema, t.name⟩ entry differs).mpr
      ⟨found, named⟩
  have sturdy := upheld.toSturdy.sturdy_added t.name fileName some
  have shelved := sturdy.shelved
  refine ⟨sturdy, ?_, upheld.paired.paired_register _ _, ?_⟩
  · refine upheld.settled.of_copies upheld.shelved catalog fun p page here => ⟨?_, .inl here⟩
    have homed := upheld.shelved.pages here
    obtain ⟨entry, known, -⟩ := upheld.settled.known here
    obtain ⟨name, numbered, -⟩ := homed.inside
    rw [upheld.shelved.stored?_of_homed homed known numbered,
      shelved.stored?_of_homed (longer.homed_mono homed) (catalog known) (longer.number numbered), pageBytes, pageBytes,
      Engine.added, e.volume.contents_openTable fileName name]
  · intro table entry found
    rcases Catalog.find?_register_cases _ _ _ found with ⟨rfl, rfl⟩ | before
    · exact ⟨t, List.mem_cons_self, rfl, fileName, leads, e.volume.number?_openTable_self fileName⟩
    · obtain ⟨u, among, named, name, leads', numbered⟩ := upheld.registered before
      exact ⟨u, List.mem_cons_of_mem _ among, named, name, leads', longer.number numbered⟩

end Engine

open Engine

inductive Call where
  | register (t : TableSpec)
  | step (op : Op)
  | flush (pages : List PageId)
  | discard (page : PageId)
  | release (txn : TxnId) (page : PageId)

namespace Call

def act : Call → Action Unit
  | .register t => do let _ ← createTable t.path t.schema t.name
  | .step op => do let _ ← op.act
  | .flush pages => flushEach pages
  | .discard page => Engine.discard page
  | .release txn page => unlock txn page

def table? : Call → Option TableSpec
  | .register t => some t
  | _ => none

def after (settings : Settings) (volume : Volume) (calls : List Call) : Engine :=
  calls.foldl (fun e call => (outcome call.act e).2) (.start settings volume)

theorem act_upholds {tables : List TableSpec} {e : Engine} (upheld : Upheld tables e) (call : Call)
    (unlike : ∀ t, call.table? = some t → ∀ u ∈ tables, u.Unlike t) :
    Upheld (call.table?.toList ++ tables) (outcome call.act e).2 := by
  cases call with
  | register t =>
    have same : (outcome (act (.register t)) e).2 = (outcome (createTable t.path t.schema t.name) e).2 := by
      rw [act, outcome_bind]
      rcases outcome (createTable t.path t.schema t.name) e with ⟨_ | _, _⟩ <;> rfl
    rw [same]
    rcases createTable_cases t.path t.schema t.name e with same | ⟨fileName, located, some, same⟩
    · rw [same]
      exact upheld.mono (List.subset_append_right _ _)
    · rw [same]
      exact upheld.upheld_added t (unlike t rfl) ((t.fileName?_eq_some_iff e.volume fileName).mpr located) some
  | step op =>
    have done : Ensures (act (.step op)) e fun _ e' => Upheld tables e' :=
      (upheld.act_upholds op).bind (fun _ _ done => .pure done) fun _ _ failed => failed
    exact done.outcome
  | flush pages => exact (upheld.flushEach_upholds pages).outcome
  | discard page => exact (upheld.discard_upholds page).outcome
  | release txn page => exact (upheld.unlock_upholds txn page).outcome

theorem upheld_after (settings : Settings) (volume : Volume) (calls : List Call)
    (once : (calls.filterMap table?).Pairwise TableSpec.Unlike) :
    Upheld (calls.filterMap table?) (after settings volume calls) := by
  induction calls using List.reverseRecOn with
  | nil => exact .upheld_start settings volume
  | append_singleton calls call ih =>
    have split : (calls ++ [call]).filterMap table? = calls.filterMap table? ++ call.table?.toList := by
      rw [List.filterMap_append]
      cases known : call.table? <;> simp [known]
    rw [split] at once ⊢
    obtain ⟨before, -, across⟩ := List.pairwise_append.mp once
    rw [after, List.foldl_append]
    refine (call.act_upholds (ih before) fun t same u among => across u among t ?_).mono ?_
    · rw [same]
      exact List.mem_singleton.mpr rfl
    · exact fun _ => List.mem_append.mpr ∘ Or.symm ∘ List.mem_append.mp

end Call

/-! ### A write fails -/

namespace Engine

/-- A reader finds the page as before. Or it was in memory without changes, a value on it is too long for its column,
and he finds it as it is read after it was written. -/
def Unharmed (e e' : Engine) (p : PageId) : Prop := e'.view? p = e.view? p ∨
  ∃ page, e.resident.get? p = some page ∧ page.dirtier = none ∧ page.Overlong ∧ e'.view? p = some page.reread

/-- Nothing has come of a write to the table, but the file of the table may have a page more, of zeros. -/
inductive Fruitless (table : TableId) (e e' : Engine) : Prop
  | untouched (volume : e'.volume = e.volume) (pages : ∀ p, Unharmed e e' p)
  | appended (f : TableFile) (file : e.fileOf? table = some f)
      (contents : ∀ name, e'.volume.contents name =
        if name = f.name then (e.contentsOf f).take (f.pages * f.pageSize) ++ Bytes.zeros f.pageSize
        else e.volume.contents name)
      (absent : e.view? ⟨table, f.pages⟩ = none)
      (empty : e'.view? ⟨table, f.pages⟩ = some (.blank ⟨table, f.pages⟩ f.schema f.pageSize))
      (pages : ∀ p, p ≠ ⟨table, f.pages⟩ → Unharmed e e' p)

/-- Inserts the caller's row, which learns where it is stored as soon as it is on a page. -/
def insertRow (txn : TxnId) (table : TableId) : Step Row RowId := do
  let row ← Step.here
  let entry ← Step.engine (resolve table)
  Step.engine (checkSchema entry.schema row.schema)
  let location ← Step.engine (insertInFile txn entry.file table row)
  Step.update (Row.placed · (some location))
  Step.engine (markDirty txn (.current location.page))
  return location

theorem insertRow_eq (txn : TxnId) (table : TableId) (row : Row) (e : Engine) :
    insertRow txn table (row, e) = match insert txn table row e with
      | .ok location e' => .ok location (row.placed (some location), e')
      | .error fault e' => .error fault (row, e') := by
  simp only [insertRow, insert, bind, EStateM.bind, Step.here, Step.engine, Step.update]
  cases resolve table e with
  | error fault e₁ => rfl
  | ok entry e₁ =>
    dsimp only
    cases checkSchema entry.schema row.schema e₁ with
    | error fault e₂ => rfl
    | ok _ e₂ =>
      dsimp only
      cases insertInFile txn entry.file table row e₂ with
      | error fault e₃ => rfl
      | ok location e₃ =>
        dsimp only
        -- A page that is in memory is marked, and one that is not is left alone: neither fails.
        have marks : ∃ e₄, markDirty txn (.current location.page) e₃ = .ok () e₄ := by
          rw [markDirty_current]
          cases e₃.resident.get? location.page with
          | none => exact ⟨_, rfl⟩
          | some page => exact ⟨_, rfl⟩
        obtain ⟨e₄, marked⟩ := marks
        rw [marked]
        rfl

variable {tables : List TableSpec} {e e' : Engine} (upheld : Upheld tables e)

include upheld

theorem Upheld.unharmed_of_seen {p : PageId} (seen : Seen p e e') : Unharmed e e' p := by
  rcases seen with same | ⟨⟨page, here, clean⟩, stored⟩
  · exact .inl same
  · rw [Unharmed, view?_of_resident here, stored]
    rcases upheld.settled.clean here clean with same | reread
    · exact .inl same
    · by_cases long : page.Overlong
      · exact .inr ⟨page, here, clean, long, reread⟩
      · rw [(upheld.shelved.pages here).shaped.reread_eq clean long] at reread
        exact .inl reread

theorem Upheld.extend_eq_append_zeros {table : TableId} {f : TableFile} (file : e.fileOf? table = some f) :
    (f.extend (e.contentsOf f)).1 = (e.contentsOf f).take (f.pages * f.pageSize) ++ Bytes.zeros f.pageSize := by
  have filed := upheld.shelved.filed_of_fileOf? file
  have length : f.pages * f.pageSize ≤ (e.contentsOf f).length ∧
      (e.contentsOf f).length < f.pages * f.pageSize + f.pageSize := by
    rw [filed.pages, filed.pageSize]
    exact ⟨Nat.div_mul_le_self .., Nat.lt_div_mul_add filed.positive⟩
  rw [TableFile.extend, TableFile.offset, Bytes.overwrite_of_no_gap _ _ _ length.1, Bytes.length_zeros,
    List.drop_eq_nil_of_le (Nat.le_of_lt length.2), List.append_nil]

theorem Upheld.fruitless_of_searched {table : TableId} (searched : Searched (Eq table) e e') :
    Fruitless table e e' := by
  rcases searched.seen_or_extended upheld.shelved with ⟨volume, seen⟩ | ⟨_, f, rfl, file, contents, absent, empty, seen⟩
  · exact .untouched volume fun p => upheld.unharmed_of_seen (seen p)
  · rw [upheld.extend_eq_append_zeros file] at contents
    exact .appended f file contents absent empty fun p differs => upheld.unharmed_of_seen (seen p differs)

omit upheld in
/-- The page that has been changed is in memory, so to mark it there needs no room. -/
theorem Replaced.handBack_succeeds {looked : Engine → Prop} {p : PageId} (replaced : Replaced looked p e)
    (txn : TxnId) :
    ∃ changed, e.resident.get? p = some changed ∧ ∃ e', handBack txn changed e = .ok () e' := by
  obtain ⟨e₁, page, changed, -, -, rfl, -, rfl⟩ := replaced
  have here : (e₁.keeping changed).resident.get? changed.id = some changed := FinMap.get?_insert_self ..
  have succeeds : Ensures (handBack txn changed) (e₁.keeping changed) fun answer _ => answer = .ok () := by
    refine .get_bind ?_
    rw [here]
    exact rfl
  refine ⟨changed, here, ?_⟩
  cases result : handBack txn changed (e₁.keeping changed) with
  | ok _ e' => exact ⟨e', rfl⟩
  | error fault e' => exact absurd (succeeds.of_error result) (by simp)

end Engine

namespace Call

/-- However tables have been registered, each once, and whatever else has been asked of the store: an insert that fails
leaves the caller's row as it was, and nothing comes of it but a page of zeros at the end of the table's file. A delete
that fails leaves all files alone. A reader finds every page as before, content and dirtier, unless it was in memory
without changes and a text on it is too long for its column; such a page may be found as it is in the file. As soon as a
page has been changed it is in memory, so it can be marked. -/
theorem failed_writes_change_no_record (settings : Settings) (volume : Volume) (calls : List Call)
    (once : (calls.filterMap table?).Pairwise TableSpec.Unlike) (txn : TxnId) :
    let e := after settings volume calls
    (∀ table row fault row' e', insertRow txn table (row, e) = .error fault (row', e') →
      row' = row ∧ Fruitless table e e') ∧
    (∀ row fault e', delete txn row e = .error fault e' → e'.volume = e.volume ∧ ∀ p, Unharmed e e' p) ∧
    (∀ table entry row location e', e.catalog.find? table = some entry →
      insertInFile txn entry.file table row e = .ok location e' →
      ∃ changed, e'.resident.get? location.page = some changed ∧ ∃ e'', handBack txn changed e' = .ok () e'') ∧
    ∀ file row p e', deleteInFile txn file row.page.table (some row) e = .ok p e' →
      ∃ changed, e'.resident.get? p = some changed ∧ ∃ e'', handBack txn changed e' = .ok () e'' := by
  intro e
  have upheld : Upheld _ e := upheld_after settings volume calls once
  refine ⟨?_, ?_, ?_, ?_⟩
  · intro table row fault row' e' failed
    rw [insertRow_eq] at failed
    split at failed
    · cases failed
    · rename_i refused
      cases failed
      have searched : Searched (Eq table) e e' :=
        (insert_glances upheld.tidy txn row rfl upheld.shelved upheld.roomy).of_error refused
      exact ⟨rfl, upheld.fruitless_of_searched searched⟩
  · intro row fault e' failed
    have glanced : Glanced (fun _ => True) e e' :=
      (delete_glances upheld.tidy txn row fun _ _ => trivial).of_error failed
    exact ⟨glanced.volume, fun p => upheld.unharmed_of_seen
      ((glanced.copies p).seen_of_stored (glanced.stored?_kept p))⟩
  · intro table entry row location e' found done
    have placed : Ensures (insertInFile txn entry.file table row) e _ :=
      insertInFile_glances upheld.tidy txn row (rfl : table = table) upheld.shelved upheld.roomy found
    exact (placed.of_ok done).2.handBack_succeeds txn
  · intro file row p e' done
    have removed : Ensures (deleteInFile txn file row.page.table (some row)) e _ :=
      deleteInFile_glances upheld.tidy txn row file (rfl : row.page.table = row.page.table)
    exact (removed.of_ok done).2.handBack_succeeds txn

def tight : Settings := { pageSize := 16, poolPages := 1 }

def letters : Schema := ⟨[⟨some "s", .text 2⟩]⟩

/-- There is a file with a text of two bytes that begin no character. -/
def strange : Volume := Volume.empty.put "a.dat" ([1, 0, 0, 0, 2, 0xFF, 0xFF] ++ Bytes.zeros 9)

/-- A letter is inserted beside the text and committed, so the page is written and stays in memory. -/
def beside : List Call :=
  [.register ⟨"a.dat", letters, "a"⟩, .register ⟨"b.dat", letters, "b"⟩,
    .step (.insert ⟨9⟩ ⟨2⟩ letters [.text "x"]), .step (.commit ⟨9⟩),
    .step (.insert ⟨1⟩ ⟨1⟩ letters [.text "y"]), .step (.commit ⟨1⟩)]

theorem missing_row_is_not_deleted :
    ∃ fault e', delete ⟨2⟩ (some ⟨⟨⟨2⟩, 0⟩, 1⟩) (after tight strange beside) = .error fault e' := by
  have fails : (outcome (delete ⟨2⟩ (some ⟨⟨⟨2⟩, 0⟩, 1⟩)) (after tight strange beside)).1.toOption = none := by
    decide +kernel
  cases done : delete ⟨2⟩ (some ⟨⟨⟨2⟩, 0⟩, 1⟩) (after tight strange beside) with
  | error fault e' => exact ⟨fault, e', rfl⟩
  | ok p e' =>
    rw [outcome, done] at fails
    exact absurd fails (by simp [Except.toOption])

/-- To look for a row that is not there leaves the files alone, and the page with the texts unless it is given up. -/
theorem missing_row_changes_nothing :
    ∃ fault e', delete ⟨2⟩ (some ⟨⟨⟨2⟩, 0⟩, 1⟩) (after tight strange beside) = .error fault e' ∧
      e'.volume = (after tight strange beside).volume ∧ ∀ p, Unharmed (after tight strange beside) e' p := by
  have once : (beside.filterMap table?).Pairwise TableSpec.Unlike := by decide +kernel
  obtain ⟨fault, e', failed⟩ := missing_row_is_not_deleted
  exact ⟨fault, e', failed, (failed_writes_change_no_record tight strange beside once ⟨2⟩).2.1 _ fault e' failed⟩

/-- It is given up, and then only one of the two replacements is read again. -/
theorem text_is_cut_by_a_failed_delete :
    ¬∀ txn row fault e', delete txn row (after tight strange beside) = .error fault e' →
      ∀ p, e'.view? p = (after tight strange beside).view? p := by
  intro unchanged
  have before : ((after tight strange beside).view? ⟨⟨1⟩, 0⟩).map (Page.valuesAt · 0) = some (some [.text "��"]) := by
    decide +kernel
  have later : ((outcome (delete ⟨2⟩ (some ⟨⟨⟨2⟩, 0⟩, 1⟩)) (after tight strange beside)).2.view? ⟨⟨1⟩, 0⟩).map
      (Page.valuesAt · 0) = some (some [.text "�"]) := by decide +kernel
  obtain ⟨fault, e', failed⟩ := missing_row_is_not_deleted
  rw [outcome, failed] at later
  rw [unchanged ⟨2⟩ _ fault e' failed, before] at later
  exact absurd later (by decide)

end Call

end RowStore
