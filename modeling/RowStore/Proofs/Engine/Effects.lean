import Mathlib.Logic.Relation
import RowStore.Proofs.Chronicle
import RowStore.Proofs.Engine.Sparing
/-!
# What a step comes down to

Whatever a step of a transaction does, it does it by a few effects, one after another: it takes or gives back
locks, brings a page into memory or drops one, edits a page in memory, writes one back, or adds a page of zeros
to a file. Every file that is read, written or made longer is the one that the catalog names. So what each
effect preserves, every step preserves, also a step that fails.
-/

namespace RowStore

/-- A row is put into a slot or taken out, or the page is marked. -/
inductive Page.Edit (page : Page) : Page → Prop
  | put (slot : Nat) (content : Option (List Value))
      (fits : ∀ values, content = some values → Row.Fits values page.schema.types) : Edit page (page.putAt slot content)
  | mark (dirtier : Option TxnId) : Edit page { page with dirtier }

namespace Engine

inductive Effect (e : Engine) : Engine → Prop
  | aside (recency : Recency) (locks : LockTable) : Effect e { e with recency, locks }
  | dropped (p : PageId) : Effect e { e with resident := e.resident.erase p }
  | loaded {p : PageId} {entry : TableEntry} {g g' : TableFile} {page : Page}
      (found : e.catalog.find? p.table = some entry) (opened : e.files[entry.file]? = some g)
      (reads : g.read (e.contentsOf g) p = .ok (page, g')) :
      Effect e { e.setFile entry.file g' with resident := e.resident.insert page.id page }
  | edited {p : PageId} {page edited : Page} (here : e.resident.get? p = some page) (edit : page.Edit edited) :
      Effect e { e with resident := e.resident.insert edited.id edited }
  | written {p : PageId} {page : Page} {entry : TableEntry} {g g' : TableFile} {contents : Bytes}
      (here : e.resident.get? p = some page) (found : e.catalog.find? p.table = some entry)
      (opened : e.files[entry.file]? = some g) (writes : g.write (e.contentsOf g) page = .ok (contents, g')) :
      Effect e { e.setFile entry.file g' with
        volume := e.volume.put g.name contents, resident := e.resident.insert page.markClean.id page.markClean }
  | extended {table : TableId} {entry : TableEntry} {g : TableFile} (found : e.catalog.find? table = some entry)
      (opened : e.files[entry.file]? = some g) :
      Effect e { e.setFile entry.file (g.extend (e.contentsOf g)).2 with
        volume := e.volume.put g.name (g.extend (e.contentsOf g)).1 }

abbrev Effects : Engine → Engine → Prop := Relation.ReflTransGen Effect

/-- What every effect preserves, any number of them do. -/
theorem preserved_of_effects {kept : Engine → Prop} (each : ∀ {e e'}, kept e → Effect e e' → kept e')
    {e e' : Engine} (effects : Effects e e') (holds : kept e) : kept e' := by
  induction effects with
  | refl => exact holds
  | tail _ last ih => exact each ih last

theorem catalog_of_effects {e e' : Engine} (effects : Effects e e') : e'.catalog = e.catalog :=
  @preserved_of_effects (fun e' => e'.catalog = e.catalog) (fun same last => by cases last <;> exact same) e e'
    effects rfl

/-- Whatever comes of the action, it comes down to effects, and memory is as it should be. -/
def Unfolds {α : Type} (act : Action α) : Prop := ∀ e, e.Tidy → Ensures act e fun _ e' => e'.Tidy ∧ Effects e e'

namespace Unfolds

variable {α β : Type} {act : Action α} {next : α → Action β}

theorem pure (a : α) : Unfolds (Pure.pure a : Action α) := fun _ tidy => ⟨tidy, .refl⟩

theorem throw (fault : Fault) : Unfolds (MonadExcept.throw fault : Action α) := fun _ tidy => ⟨tidy, .refl⟩

theorem get_bind {next : Engine → Action β} (later : ∀ e, Unfolds (next e)) : Unfolds (get >>= next) :=
  fun e tidy => later e e tidy

theorem bind (first : Unfolds act) (later : ∀ a, Unfolds (next a)) : Unfolds (act >>= next) := by
  intro e tidy
  refine (first e tidy).bind ?_ fun _ _ failed => failed
  rintro a e' ⟨tidy', effects⟩
  exact (later a e' tidy').mono fun _ _ ⟨tidy'', effects'⟩ => ⟨tidy'', effects.trans effects'⟩

/-- What is done to locks and uses is an effect. -/
theorem of_aside (tidies : Tidies act)
    (aside : ∀ e, Ensures act e fun _ e' => ∃ recency locks, e' = { e with recency, locks }) : Unfolds act := by
  intro e tidy
  refine ((tidies e tidy).and (aside e)).mono ?_
  rintro _ _ ⟨orderly, recency, locks, rfl⟩
  exact ⟨orderly.tidy, .single (.aside recency locks)⟩

end Unfolds

theorem resolve_unfolds (table : TableId) : Unfolds (resolve table) :=
  .of_aside (resolve_tidies table) fun e => (resolve_ensures table).mono fun answer e' resolved => by
    cases answer <;> exact ⟨e.recency, e.locks, resolved.1⟩

theorem lock_unfolds (txn : TxnId) (p : PageId) (mode : LockMode) : Unfolds (lock txn p mode) :=
  .of_aside (lock_tidies txn p mode) fun e => by
    rw [Ensures, lock]
    obtain ⟨verdict, locks⟩ := e.locks.requestNow ⟨txn, p, mode⟩
    cases verdict <;> exact ⟨e.recency, locks, rfl⟩

theorem unlockUnless_unfolds (held : Bool) (txn : TxnId) (p : PageId) : Unfolds (unlockUnless held txn p) :=
  .of_aside (unlockUnless_tidies held txn p) fun e => by
    cases held with
    | true => exact ⟨e.recency, e.locks, rfl⟩
    | false => exact ⟨e.recency, e.locks.release txn p, rfl⟩

/-! ### Files are read and written -/

theorem readPage_ok (file : FileNo) (p : PageId) (e : Engine) : Ensures (readPage file p) e fun
    | .ok page, e' => ∃ g g', e.files[file]? = some g ∧ g.read (e.contentsOf g) p = .ok (page, g') ∧
        e' = e.setFile file g'
    | .error _, e' => e' = e := by
  refine (openFile_opens file p.table e).bind ?_ fun _ _ failed => failed.1
  rintro g e ⟨rfl, opened⟩
  refine .get_bind ?_
  cases done : g.read (e.contentsOf g) p with
  | error fault => exact .throw rfl
  | ok read => exact ⟨g, read.2, opened g rfl, done, rfl⟩

theorem writePage_ok (file : FileNo) (page : Page) (e : Engine) : Ensures (writePage file page) e fun
    | .ok _, e' => ∃ g g' contents, e.files[file]? = some g ∧ g.write (e.contentsOf g) page = .ok (contents, g') ∧
        e' = { e.setFile file g' with volume := e.volume.put g.name contents }
    | .error _, e' => e' = e := by
  refine (openFile_opens file page.id.table e).bind ?_ fun _ _ failed => failed.1
  rintro g e ⟨rfl, opened⟩
  refine .get_bind ?_
  cases done : g.write (e.contentsOf g) page with
  | error fault => exact .throw rfl
  | ok written =>
    obtain ⟨contents, g'⟩ := written
    obtain ⟨-, -, -, rfl⟩ := TableFile.write_eq_ok_iff.mp done
    exact ⟨g, _, contents, opened g rfl, done, rfl⟩

theorem extendFile_ok (file : FileNo) (table : TableId) (e : Engine) : Ensures (extendFile file table) e fun
    | .ok _, e' => ∃ g, e.files[file]? = some g ∧
        e' = { e.setFile file (g.extend (e.contentsOf g)).2 with
          volume := e.volume.put g.name (g.extend (e.contentsOf g)).1 }
    | .error _, e' => e' = e := by
  refine (openFile_opens file table e).bind ?_ fun _ _ failed => failed.1
  rintro g e ⟨rfl, opened⟩
  exact ⟨g, opened g rfl, rfl⟩

/-! ### Pages come and go -/

theorem effects_dropped (e : Engine) (p : PageId) (recency : Recency) :
    Effects e { e with resident := e.resident.erase p, recency } :=
  .tail (.single (.dropped p)) (.aside recency e.locks)

theorem makeRoom_drops (e : Engine) : Ensures makeRoom e fun _ e' =>
    e' = e ∨ ∃ p recency, e' = { e with resident := e.resident.erase p, recency } := by
  refine (makeRoom_cases e).mono ?_
  rintro (fault | _) e' made
  · exact .inl made.2.1
  · obtain ⟨-, ⟨-, same⟩ | ⟨-, victim, page, -, -, -, same⟩⟩ := made
    · exact .inl same
    · exact .inr ⟨victim, _, same⟩

theorem makeRoom_effects (e : Engine) : Ensures makeRoom e fun _ e' => Effects e e' := by
  refine (makeRoom_drops e).mono ?_
  rintro _ e' (rfl | ⟨p, recency, rfl⟩)
  · exact .refl
  · exact effects_dropped e p recency

theorem load_effects (p : PageId) (e : Engine) : Ensures (load p) e fun _ e' => Effects e e' := by
  refine (makeRoom_effects e).bind ?_ fun _ _ failed => failed
  intro _ e₁ made
  refine (resolve_ensures p.table).bind ?_ fun _ _ failed => failed.1 ▸ made
  rintro entry e₁ ⟨rfl, found⟩
  refine (readPage_ok entry.file p e₁).bind ?_ ?_
  · rintro page e₂ ⟨g, g', opened, reads, rfl⟩
    exact (made.tail (.loaded found opened reads)).tail (.aside _ _)
  · rintro fault e₂ rfl
    exact made

theorem getPage_effects {e : Engine} (tidy : e.Tidy) (txn : TxnId) (p : PageId) (mode : LockMode) :
    Ensures (getPage txn p mode) e fun answer e' => e'.Tidy ∧ Effects e e' ∧
      ∀ page, answer = .ok page → page.id = p ∧ e'.resident.get? p = some page := by
  have effects : Ensures (getPage txn p mode) e fun _ e' => Effects e e' := by
    refine (lock_unfolds txn p mode e tidy).bind ?_ fun _ _ failed => failed.2
    rintro _ e₁ ⟨-, locked⟩
    refine .get_bind ?_
    cases e₁.resident.get? p with
    | some page => exact locked.tail (.aside _ _)
    | none => exact (load_effects p e₁).mono fun _ _ loaded => locked.trans loaded
  exact ((getPage_keeps tidy txn p mode).and effects).mono fun _ _ done => ⟨done.1.1.tidy, done.2, done.1.2⟩

theorem getPage_unfolds (txn : TxnId) (p : PageId) (mode : LockMode) : Unfolds (getPage txn p mode) :=
  fun _ tidy => (getPage_effects tidy txn p mode).mono fun _ _ done => ⟨done.1, done.2.1⟩

/-! ### Rows -/

theorem insertOn_unfolds (txn : TxnId) (p : PageId) {row : Row} (fits : Row.Fits row.values row.schema.types) :
    Unfolds (insertOn txn p row) := by
  intro e tidy
  have effects : Ensures (insertOn txn p row) e fun _ e' => Effects e e' := by
    refine .get_bind ((getPage_effects tidy txn p .exclusive).bind ?_ fun _ _ failed => failed.2.1)
    rintro page e₁ ⟨tidy₁, gotten, here⟩
    obtain ⟨own, resident⟩ := here page rfl
    by_cases full : page.freeSlots = 0
    · rw [if_pos full]
      refine (unlockUnless_unfolds _ txn p e₁ tidy₁).bind ?_ fun _ _ failed => gotten.trans failed.2
      rintro _ e₂ ⟨-, unlocked⟩
      exact .pure (gotten.trans unlocked)
    · rw [if_neg full]
      refine (place_ensures page row e₁).map ?_ ?_
      · rintro location e₂ ⟨slot, -, same, -, -, -, rfl⟩
        rw [of_decide_eq_true same] at fits
        refine gotten.tail (.edited resident (.put slot _ ?_))
        rintro values ⟨⟩
        exact fits
      · rintro fault e₂ ⟨rfl, -⟩
        exact gotten
  exact ((insertOn_tidies txn p row e tidy).and effects).mono fun _ _ done => ⟨done.1.tidy, done.2⟩

theorem insertOnFirst_unfolds (txn : TxnId) {row : Row} (fits : Row.Fits row.values row.schema.types)
    (pages : List PageId) : Unfolds (insertOnFirst txn row pages) := by
  induction pages with
  | nil => exact .pure none
  | cons p rest ih =>
    refine (insertOn_unfolds txn p fits).bind fun answer => ?_
    cases answer with
    | some location => exact .pure (some location)
    | none => exact ih

theorem extendFile_unfolds {table : TableId} {entry : TableEntry} {e : Engine} (tidy : e.Tidy)
    (found : e.catalog.find? table = some entry) :
    Ensures (extendFile entry.file table) e fun _ e' => e'.Tidy ∧ Effects e e' := by
  refine ((extendFile_tidies entry.file table e tidy).and (extendFile_ok entry.file table e)).mono ?_
  rintro (fault | p) e' ⟨orderly, done⟩
  · exact ⟨orderly.tidy, done ▸ .refl⟩
  · obtain ⟨g, opened, rfl⟩ := done
    exact ⟨orderly.tidy, .single (.extended found opened)⟩

section

variable {table : TableId} {entry : TableEntry} (txn : TxnId) {row : Row}
  (fits : Row.Fits row.values row.schema.types)

include fits

theorem insertOnNew_effects (tries : Nat) {e : Engine} (tidy : e.Tidy) (found : e.catalog.find? table = some entry) :
    Ensures (insertOnNew txn entry.file table row tries) e fun _ e' => e'.Tidy ∧ Effects e e' := by
  induction tries generalizing e with
  | zero => exact .throw ⟨tidy, .refl⟩
  | succ tries ih =>
    refine (extendFile_unfolds tidy found).bind ?_ fun _ _ failed => failed
    rintro p e₁ ⟨tidy₁, longer⟩
    refine (insertOn_unfolds txn p fits e₁ tidy₁).bind ?_ fun _ _ failed => ⟨failed.1, longer.trans failed.2⟩
    rintro answer e₂ ⟨tidy₂, tried⟩
    have sofar := longer.trans tried
    cases answer with
    | some location => exact .pure ⟨tidy₂, sofar⟩
    | none =>
      rw [← catalog_of_effects sofar] at found
      exact (ih tidy₂ found).mono fun _ _ later => ⟨later.1, sofar.trans later.2⟩

theorem insertInFile_effects {e : Engine} (tidy : e.Tidy) (found : e.catalog.find? table = some entry) :
    Ensures (insertInFile txn entry.file table row) e fun _ e' => e'.Tidy ∧ Effects e e' := by
  refine .get_bind ((insertOnFirst_unfolds txn fits _ e tidy).bind ?_ fun _ _ failed => failed)
  rintro answer e₁ ⟨tidy₁, tried⟩
  cases answer with
  | some location => exact .pure ⟨tidy₁, tried⟩
  | none =>
    rw [← catalog_of_effects tried] at found
    exact .get_bind ((insertOnNew_effects txn fits _ tidy₁ found).mono
      fun _ _ later => ⟨later.1, tried.trans later.2⟩)

omit fits in
theorem markDirty_unfolds (p : PageId) : Unfolds (markDirty txn (.current p)) := by
  intro e tidy
  have marked : Ensures (markDirty txn (.current p)) e fun _ e' => Effects e e' := by
    rw [Ensures, markDirty_current]
    cases here : e.resident.get? p with
    | none => exact .refl
    | some page => exact .single (.edited here (.mark (some txn)))
  exact ((markDirty_tidies txn (.current p) e tidy).and marked).mono fun _ _ done => ⟨done.1.tidy, done.2⟩

theorem insert_unfolds (table : TableId) : Unfolds (insert txn table row) := by
  intro e tidy
  refine (resolve_ensures table).bind ?_ (by rintro fault e ⟨rfl, -⟩; exact ⟨tidy, .refl⟩)
  rintro entry e ⟨rfl, found⟩
  refine (checkSchema_ensures entry.schema row.schema e).bind ?_ (by rintro fault e rfl; exact ⟨tidy, .refl⟩)
  rintro _ e rfl
  refine (insertInFile_effects txn fits tidy found).bind ?_ fun _ _ failed => failed
  rintro location e₁ ⟨tidy₁, stored⟩
  have rest : Unfolds (do markDirty txn (.current location.page); return location) :=
    (markDirty_unfolds txn location.page).bind fun _ => .pure location
  exact (rest e₁ tidy₁).mono fun _ _ later => ⟨later.1, stored.trans later.2⟩

end

theorem deleteInFile_unfolds (txn : TxnId) (file : FileNo) (table : TableId) (row : RowId) :
    Unfolds (deleteInFile txn file table (some row)) := by
  intro e tidy
  have effects : Ensures (deleteInFile txn file table (some row)) e fun _ e' => Effects e e' := by
    refine .get_bind ?_
    by_cases outside : row.page.table ≠ table ∨ e.pagesOf file ≤ row.page.number
    · rw [if_pos outside]
      exact .throw .refl
    · rw [if_neg outside]
      refine (getPage_effects tidy txn row.page .exclusive).bind ?_ fun _ _ failed => failed.2.1
      rintro page e₁ ⟨-, gotten, here⟩
      obtain ⟨-, resident⟩ := here page rfl
      rcases page.delete_cases row with ⟨-, -, -, done⟩ | ⟨-, refused⟩
      · rw [done]
        exact gotten.tail (.edited resident (.put row.slot none (by simp)))
      · rw [refused]
        exact .throw gotten
  exact ((deleteInFile_tidies txn file table row e tidy).and effects).mono fun _ _ done => ⟨done.1.tidy, done.2⟩

theorem delete_unfolds (txn : TxnId) (row : Option RowId) : Unfolds (delete txn row) := by
  cases row with
  | none => exact .throw _
  | some row =>
    refine (resolve_unfolds row.page.table).bind fun entry => ?_
    refine (deleteInFile_unfolds txn entry.file row.page.table row).bind fun p => ?_
    exact (markDirty_unfolds txn p).bind fun _ => .pure p

/-! ### The end of a transaction -/

theorem writeBack_effects {e : Engine} {p : PageId} {page : Page} (here : e.resident.get? p = some page) :
    Ensures (writeBack p page) e fun _ e' => Effects e e' := by
  refine (resolve_ensures p.table).bind ?_ (by rintro fault e ⟨rfl, -⟩; exact .refl)
  rintro entry e ⟨rfl, found⟩
  refine (writePage_ok entry.file page e).bind ?_ ?_
  · rintro _ e₁ ⟨g, g', contents, opened, writes, rfl⟩
    exact .single (.written here found opened writes)
  · rintro fault e₁ rfl
    exact .refl

theorem flush_unfolds (p : PageId) : Unfolds (flush p) := by
  intro e tidy
  have effects : Ensures (flush p) e fun _ e' => Effects e e' := by
    rcases e.flush_cases p with ⟨same, -⟩ | ⟨page, txn, here, -, same⟩
    · rw [Ensures, same]
    · exact .congr same (writeBack_effects here)
  exact ((flush_tidies p e tidy).and effects).mono fun _ _ done => ⟨done.1.tidy, done.2⟩

theorem flushEach_unfolds (pages : List PageId) : Unfolds (flushEach pages) := by
  induction pages with
  | nil => exact .pure ()
  | cons p rest ih => exact (flush_unfolds p).bind fun _ => ih

theorem discardEach_unfolds (pages : List PageId) : Unfolds (discardEach pages) := by
  induction pages with
  | nil => exact .pure ()
  | cons p rest ih =>
    refine Unfolds.bind (fun e tidy => ?_) fun _ => ih
    exact ⟨(discard_tidies p e tidy).tidy, effects_dropped e p (e.recency.forget p)⟩

theorem ending_unfolds {act : Action Unit} (unfolds : Unfolds act) (txn : TxnId) : Unfolds (ending txn act) := by
  intro e tidy
  refine ending_ensures txn ((unfolds e tidy).mono ?_)
  rintro _ e' ⟨tidy', effects⟩
  exact ⟨⟨tidy'.own, tidy'.tracked, tidy'.bounded⟩, effects.tail (.aside e'.recency _)⟩

theorem commit_unfolds (txn : TxnId) : Unfolds (commit txn) := by
  refine ending_unfolds (.bind ?_ fun _ => .pure ()) txn
  exact .get_bind fun e => (flushEach_unfolds _).bind fun _ => .pure _

theorem abort_unfolds (txn : TxnId) : Unfolds (abort txn) :=
  ending_unfolds (.get_bind fun e => discardEach_unfolds (e.dirtyPages txn)) txn

end Engine

theorem Op.act_unfolds (op : Op) : Engine.Unfolds op.act := by
  cases op with
  | insert txn table schema values =>
    intro e tidy
    exact Op.insert_ensures (fun _ _ => ⟨tidy, .refl⟩) (fun fits => Engine.insert_unfolds txn fits table e tidy)
      (fun _ _ done => done) fun _ _ failed => failed
  | delete txn row => exact (Engine.delete_unfolds txn row).bind fun _ => .pure _
  | read txn page mode => exact (Engine.getPage_unfolds txn page mode).bind fun _ => .pure _
  | scan s count =>
    intro e tidy
    have pages : ∀ e₁ number, (e₁.Tidy ∧ Engine.Effects e e₁) → True →
        Ensures (Engine.getPage s.txn ⟨s.table, number⟩ .shared) e₁ fun
        | .ok page, e₂ => (e₂.Tidy ∧ Engine.Effects e e₂) ∧ ∀ row ∈ page.rows, True
        | .error _, e₂ => (e₂.Tidy ∧ Engine.Effects e e₂) ∧ True := by
      rintro e₁ number ⟨tidy₁, effects⟩ -
      refine (Engine.getPage_unfolds s.txn ⟨s.table, number⟩ .shared e₁ tidy₁).mono ?_
      rintro (fault | page) e₂ ⟨tidy₂, gotten⟩
      · exact ⟨⟨tidy₂, effects.trans gotten⟩, trivial⟩
      · exact ⟨⟨tidy₂, effects.trans gotten⟩, fun _ _ => trivial⟩
    have taken := @FileScan.take_gives (fun e' => e'.Tidy ∧ Engine.Effects e e') (fun _ _ => True) (fun _ => True) s
      (fun _ => True) (fun _ _ _ _ => trivial) pages e ⟨tidy, .refl⟩ s ⟨⟨rfl, rfl, rfl⟩, fun _ _ => trivial⟩ count
    exact FileScan.draw_ensures taken (fun _ _ done => done.2.1) fun _ _ => False.elim
  | commit txn => exact (Engine.commit_unfolds txn).bind fun _ => .pure _
  | abort txn => exact (Engine.abort_unfolds txn).bind fun _ => .pure _

end RowStore
