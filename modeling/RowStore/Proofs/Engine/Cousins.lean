import RowStore.Proofs.Engine.Pairing
import RowStore.Proofs.Engine.Sole
/-!
# One transaction beside different others

Cousins are engines in each of which the same transaction has the same tables to itself. Others may have done what they
like with other tables, so that other pages are in memory and other locks are held. What the transaction does with its
own comes to the same in both, unless one of them runs out of memory.
-/

namespace RowStore

theorem TableFile.read_recounted (f : TableFile) (reads writes : Nat) (contents : Bytes) (p : PageId) :
    ({ f with reads, writes }.read contents p).map Prod.fst = (f.read contents p).map Prod.fst := by
  have bounds : ({ f with reads, writes } : TableFile).checkBounds p = f.checkBounds p := rfl
  dsimp only [read, offset, bind, Except.bind, pure, Except.pure]
  rw [bounds]
  cases f.checkBounds p with
  | error fault => rfl
  | ok _ =>
    dsimp only
    split
    · rfl
    · cases Page.decode? p f.schema (contents.region (p.number * f.pageSize) f.pageSize) <;> rfl

namespace Engine

variable {mine : TableId → Prop} {txn : TxnId} {e e' : Engine} {p : PageId}

/-! ### A page is had -/

def reading (e : Engine) (p : PageId) : Except Fault Page :=
  match e.fileOf? p.table with
  | none => .error (.unknownTable p.table)
  | some f => (f.read (e.contentsOf f) p).map Prod.fst

def having (e : Engine) (p : PageId) : Except Fault Page :=
  match e.view? p with
  | some page => .ok page
  | none => e.reading p

theorem SameFiles.reading_eq (same : SameFiles e e') (p : PageId) : e'.reading p = e.reading p := by
  rw [Engine.reading, Engine.reading, same.fileOf?_kept]
  cases e.fileOf? p.table with
  | none => rfl
  | some f =>
    dsimp only
    rw [same.contentsOf_kept]

theorem readPage_answers {entry : TableEntry} (found : e.catalog.find? p.table = some entry) :
    Ensures (readPage entry.file p) e fun answer _ => answer = e.reading p := by
  have file : e.fileOf? p.table = (e.files[entry.file]?).map TableFile.unread := by
    rw [fileOf?, found, Option.bind_some, List.getElem?_map]
  rw [readPage]
  cases opened : e.files[entry.file]? with
  | none =>
    have closed : openFile entry.file p.table e = .error (.unknownTable p.table) e := by rw [openFile, opened]
    rw [opened, Option.map_none] at file
    have failed : Ensures (openFile entry.file p.table) e fun answer _ => answer = .error (.unknownTable p.table) := by
      rw [Ensures, closed]
    refine failed.bind (by simp) ?_
    rintro fault e' ⟨⟩
    rw [reading, file]
  | some g =>
    have openFile : openFile entry.file p.table e = .ok g e := by rw [openFile, opened]
    rw [opened, Option.map_some] at file
    have first : Ensures (Engine.openFile entry.file p.table) e fun answer e' => answer = .ok g ∧ e' = e := by
      rw [Ensures, openFile]
      exact ⟨rfl, rfl⟩
    refine first.bind ?_ (by simp)
    rintro _ e' ⟨⟨⟩, rfl⟩
    have same : e'.reading p = (g.read (e'.contentsOf g) p).map Prod.fst := by
      rw [reading, file]
      exact TableFile.read_recounted g 0 g.writes _ p
    refine .get_bind ?_
    cases done : g.read (e'.contentsOf g) p with
    | error fault => exact .throw (by rw [same, done]; rfl)
    | ok read =>
      have answered : Except.ok read.1 = e'.reading p := by rw [same, done]; rfl
      exact answered

theorem load_answers (p : PageId) (e : Engine) : Ensures (load p) e fun answer _ =>
    answer = .error .poolFull ∨ answer = e.reading p := by
  refine ((makeRoom_glances (fun _ => True) e).and (makeRoom_gives_up e)).bind ?_ ?_
  · rintro _ e₁ ⟨⟨glanced, -⟩, -⟩
    have same := glanced.reading_eq p
    refine (resolve_ensures p.table).bind ?_ ?_
    · rintro entry e₁ ⟨rfl, found⟩
      refine (readPage_answers found).bind ?_ ?_
      · rintro page e₂ read
        exact .inr (read.trans same)
      · rintro fault e₂ failed
        refine .inr (Eq.trans ?_ same)
        rw [← failed]
    · rintro fault e₂ ⟨rfl, rfl, unknown⟩
      right
      rw [← same, reading, unknown]
  · rintro fault e₁ ⟨-, rfl, -⟩
    exact .inl rfl

theorem Shelved.reading_of_stored (shelved : e.Shelved) {page : Page} (stored : e.stored? p = some page) :
    e.reading p = .ok page := by
  obtain ⟨f, file, inside⟩ := stored?_inside e p page stored
  have filed := shelved.filed_of_fileOf? file
  rw [Engine.stored?_eq file, bytes?, file, Option.bind_some, if_pos inside, Option.bind_some] at stored
  have whole : ((e.contentsOf f).region (f.offset p.number) f.pageSize).length = f.pageSize := by
    refine TableFile.length_page inside ?_
    rw [filed.pages, filed.pageSize]
    exact Nat.div_mul_le_self _ _
  have reads := TableFile.read_eq_ok_iff.mpr ⟨filed.own.symm, inside, whole, stored, rfl⟩
  rw [reading, file]
  exact congrArg (Except.map Prod.fst) reads

theorem Shelved.having_eq (shelved : e.Shelved) (absent : e.resident.get? p = none) : e.having p = e.reading p := by
  rw [having, view?_of_absent absent]
  cases stored : e.stored? p with
  | none => rfl
  | some page => exact (shelved.reading_of_stored stored).symm

theorem Sole.getPage_answers (sole : Sole mine txn e) (own : mine p.table) (mode : LockMode) :
    Ensures (getPage txn p mode) e fun answer e' =>
      (answer = .error .poolFull ∨ answer = e.having p) ∧ e'.locks = e.locks.grant ⟨txn, p, mode⟩ := by
  have clear : e.locks.blockers ⟨txn, p, mode⟩ = [] := by
    refine (LockTable.blockers_eq_nil_iff _ _).mpr fun holder held differs locked => ?_
    exact absurd ((sole.alone p holder own differs).symm.trans locked) (by simp)
  refine (lock_ensures txn p mode).bind ?_ fun _ _ refused => absurd clear refused.1
  rintro _ e₁ ⟨-, rfl⟩
  have same : SameFiles e { e with locks := e.locks.grant ⟨txn, p, mode⟩ } := ⟨rfl, rfl, rfl, rfl⟩
  refine .get_bind ?_
  cases here : e.resident.get? p with
  | some page =>
    have seen : e.having p = .ok page := by rw [having, view?_of_resident here]
    exact ⟨.inr seen.symm, rfl⟩
  | none =>
    have loaded := (load_answers p { e with locks := e.locks.grant ⟨txn, p, mode⟩ }).and (load_looked txn here)
    rw [same.reading_eq, ← sole.shelved.having_eq here] at loaded
    exact loaded.mono fun _ _ done => ⟨done.1, done.2.2⟩

/-! ### What the transaction itself does -/

/-- The transaction has looked at pages, and no reader of its tables finds anything else. -/
structure Viewed (mine : TableId → Prop) (txn : TxnId) (e e' : Engine) : Prop extends SameFiles e e' where
  running : Running mine txn e'
  view? : ∀ p, mine p.table → e'.view? p = e.view? p

namespace Running

variable (running : Running mine txn e)

include running

theorem viewed_of_glanced (glanced : Glanced mine e e') (sturdy : e'.Sturdy)
    (alone : ∀ p holder, mine p.table → holder ≠ txn → e'.locks.mode? holder p = none) : Viewed mine txn e e' := by
  refine ⟨glanced.toSameFiles, ⟨⟨sturdy, alone, ?_⟩, ?_, ?_⟩, ?_⟩
  · intro p page other own here dirty
    exact running.changed p page other own ((glanced.copies p).held_changed here dirty) dirty
  · intro p page own here clean
    rw [glanced.stored?_kept]
    rcases (glanced.copies p).held_before here with before | stored
    · exact running.clean p page own before clean
    · exact stored
  · intro p page here dirty
    exact running.within p page ((glanced.copies p).held_changed here dirty) dirty
  · intro p own
    rcases (glanced.copies p).seen_of_stored (glanced.stored?_kept p) with same | ⟨⟨page, here, clean⟩, seen⟩
    · exact same
    · rw [seen, running.clean p page own here clean, view?_of_resident here]

theorem running_lengthened {table : TableId} {f : TableFile} (longer : Lengthened table f e e') (sturdy : e'.Sturdy) :
    Running mine txn e' ∧ ∀ p, e'.view? p =
      if p = ⟨table, f.pages⟩ then some (.blank p f.schema f.pageSize) else e.view? p := by
  have past : e.resident.get? ⟨table, f.pages⟩ = none := running.shelved.absent_of_past longer.file (Nat.le_refl _)
  have stored : ∀ p page, e.resident.get? p = some page → e'.stored? p = e.stored? p := by
    intro p page here
    rw [longer.stored?, if_neg]
    rintro rfl
    exact absurd (past.symm.trans here) (by simp)
  refine ⟨⟨⟨sturdy, ?_, ?_⟩, ?_, ?_⟩, ?_⟩
  · rw [longer.locks]
    exact running.alone
  · rw [longer.resident]
    exact running.changed
  · intro p page own here clean
    rw [longer.resident] at here
    rw [stored p page here]
    exact running.clean p page own here clean
  · rw [longer.resident]
    exact running.within
  · intro p
    rw [Engine.view?, Engine.view?, longer.resident, longer.stored?]
    split
    · rename_i new
      rw [new, past, Option.none_or]
    · rfl

theorem running_marked {page : Page} {slot : Nat} {content : Option (List Value)} (own : mine page.id.table)
    (here : e.resident.get? page.id = some page)
    (fits : ∀ values, content = some values → Row.Fits values page.schema.types)
    (after : e' = (e.keeping (page.putAt slot content)).keeping ((page.putAt slot content).markDirty txn)) :
    Running mine txn e' ∧ ∀ q, e'.view? q =
      if q = page.id then some ((page.putAt slot content).markDirty txn) else e.view? q := by
  let changed := page.putAt slot content
  have put : (e.keeping changed).resident.get? page.id = some changed := FinMap.get?_insert_self ..
  have tidy₁ : (e.keeping changed).Tidy := (running.tidy.orderly_replace changed (Option.isSome_of_eq_some here)).tidy
  have tidy : e'.Tidy := after ▸ (tidy₁.orderly_replace (changed.markDirty txn) (Option.isSome_of_eq_some put)).tidy
  have effects : Effects e e' := by
    rw [after]
    exact .tail (.single (.edited here (.put slot content fits))) (.edited put (.mark (some txn)))
  have same : SameFiles e e' := after ▸ ⟨rfl, rfl, rfl, rfl⟩
  have resident : ∀ q, e'.resident.get? q = if q = page.id then some (changed.markDirty txn) else e.resident.get? q := by
    intro q
    rw [after]
    change ((e.resident.insert page.id changed).insert page.id (changed.markDirty txn)).get? q = _
    rw [FinMap.get?_insert, FinMap.get?_insert]
    split
    · rfl
    · rfl
  have locks : e'.locks = e.locks := after ▸ rfl
  refine ⟨⟨⟨running.toSturdy.of_effects tidy effects, ?_, ?_⟩, ?_, ?_⟩, ?_⟩
  · rw [locks]
    exact running.alone
  · intro q copy other owned found dirty
    rw [resident] at found
    split at found
    · cases found
      exact (Option.some.inj dirty).symm
    · exact running.changed q copy other owned found dirty
  · intro q copy owned found clean
    rw [same.stored?_kept]
    rw [resident] at found
    split at found
    · cases found
      exact absurd clean (by simp [Page.markDirty])
    · exact running.clean q copy owned found clean
  · intro q copy found dirty
    rw [resident] at found
    split at found
    · rename_i this
      exact this ▸ own
    · exact running.within q copy found dirty
  · intro q
    rw [Engine.view?, Engine.view?, resident, same.stored?_kept]
    split
    · rfl
    · rfl

theorem getPage_views (own : mine p.table) (mode : LockMode) : Ensures (getPage txn p mode) e fun answer e' =>
    (answer = .error .poolFull ∨ answer = e.having p) ∧ Viewed mine txn e e' ∧
      e'.locks = e.locks.grant ⟨txn, p, mode⟩ ∧
      ∀ page, answer = .ok page → page.id = p ∧ e'.resident.get? p = some page := by
  refine ((running.getPage_answers own mode).and ((getPage_glances own txn mode e).and
    (getPage_effects running.tidy txn p mode))).mono ?_
  rintro answer e' ⟨⟨answered, locks⟩, ⟨glanced, -⟩, tidy, effects, here⟩
  refine ⟨answered, running.viewed_of_glanced glanced (running.toSturdy.of_effects tidy effects) ?_, locks, here⟩
  intro q holder owned differs
  rw [locks, LockTable.mode?_grant, if_neg fun same => differs same.2]
  exact running.alone q holder owned differs

theorem unlockUnless_views (own : mine p.table) (held : Bool) : Ensures (unlockUnless held txn p) e fun answer e' =>
    answer = .ok () ∧ Viewed mine txn e e' ∧ ∀ q, e'.locks.mode? txn q =
      if held = false ∧ q = p then none else e.locks.mode? txn q := by
  have unlocked : Ensures (Engine.unlockUnless held txn p) e fun answer e' => answer = .ok () ∧
      e'.locks = if held then e.locks else e.locks.release txn p := by
    cases held <;> exact ⟨rfl, rfl⟩
  refine ((unlockUnless_glances own held txn e).and ((unlockUnless_unfolds held txn p e running.tidy).and unlocked)).mono ?_
  rintro answer e' ⟨glanced, ⟨tidy, effects⟩, done, locks⟩
  have modes : ∀ holder q, e'.locks.mode? holder q =
      if held = false ∧ q = p ∧ holder = txn then none else e.locks.mode? holder q := by
    intro holder q
    rw [locks]
    cases held with
    | true => simp
    | false => simpa using LockTable.mode?_release ..
  refine ⟨done, running.viewed_of_glanced glanced (running.toSturdy.of_effects tidy effects) ?_, fun q => ?_⟩
  · intro q holder owned differs
    rw [modes, running.alone q holder owned differs, ite_self]
  · simpa using modes txn q

theorem extendFile_lengthens {table : TableId} {entry : TableEntry} (found : e.catalog.find? table = some entry) :
    Ensures (extendFile entry.file table) e fun
      | .ok p, e' => ∃ f, Lengthened table f e e' ∧ p = ⟨table, f.pages⟩ ∧ e'.Sturdy
      | .error _, _ => False := by
  refine ((running.shelved.extendFile_lengthens found).and (extendFile_unfolds running.tidy found)).mono ?_
  rintro (fault | p) e' ⟨done, tidy, effects⟩
  · exact done
  · obtain ⟨f, longer, rfl⟩ := done
    exact ⟨f, longer, rfl, running.toSturdy.of_effects tidy effects⟩

end Running

/-! ### The same transaction in two engines -/

/-- A reader of these tables finds the same in both, and the transaction holds the same locks on them. -/
structure Cousins (c : Catalog) (mine : TableId → Prop) (txn : TxnId) (e₁ e₂ : Engine) : Prop
    extends SameBytes mine e₁ e₂ where
  left : Running mine txn e₁
  right : Running mine txn e₂
  registered : e₁.catalog = c
  view? : ∀ p, mine p.table → e₂.view? p = e₁.view? p
  locks : ∀ p, mine p.table → e₂.locks.mode? txn p = e₁.locks.mode? txn p

namespace Cousins

variable {c : Catalog} {e₁ e₂ t₁ t₂ : Engine} (cousins : Cousins c mine txn e₁ e₂)

include cousins

theorem symm : Cousins c mine txn e₂ e₁ where
  toSameBytes := cousins.toSameBytes.symm
  left := cousins.right
  right := cousins.left
  registered := cousins.catalog.trans cousins.registered
  view? p own := (cousins.view? p own).symm
  locks p own := (cousins.locks p own).symm

theorem cousins_of_untouched (untouched : Untouched mine txn e₁ t₁) (sturdy : t₁.Sturdy) :
    Cousins c mine txn t₁ e₂ where
  toSameBytes := untouched.toSameBytes.symm.trans cousins.toSameBytes
  left := untouched.running_after cousins.left sturdy
  right := cousins.right
  registered := untouched.catalog.trans cousins.registered
  view? p own := (cousins.view? p own).trans (untouched.view?_eq_of_own cousins.left sturdy own).symm
  locks p own := (cousins.locks p own).trans (untouched.locks p own).symm

theorem reading_eq {p : PageId} (own : mine p.table) : e₂.reading p = e₁.reading p := by
  have shelved := cousins.left.shelved
  have shelved' := cousins.right.shelved
  cases file : e₁.fileOf? p.table with
  | none => rw [Engine.reading, Engine.reading, file, cousins.file_none shelved shelved' file]
  | some f =>
    obtain ⟨⟨reads, writes, file'⟩, contents⟩ := cousins.contentsOf_eq shelved shelved' own file
    rw [Engine.reading, Engine.reading, file, file']
    dsimp only
    rw [← contents]
    exact f.read_recounted reads writes _ p

theorem having_eq {p : PageId} (own : mine p.table) : e₂.having p = e₁.having p := by
  rw [Engine.having, Engine.having, cousins.view? p own, cousins.reading_eq own]

theorem pagesOf_eq {table : TableId} {entry : TableEntry} (own : mine table) (found : c.find? table = some entry) :
    e₁.pagesOf entry.file = e₂.pagesOf entry.file := by
  have shelved := cousins.left.shelved
  rw [← cousins.registered] at found
  obtain ⟨g, opened, -⟩ := shelved.current found
  have file := (e₁.fileOf?_eq_some_iff table g.unread).mpr ⟨entry, g, found, opened, rfl⟩
  obtain ⟨⟨reads, writes, file'⟩, -⟩ := cousins.contentsOf_eq shelved cousins.right.shelved own file
  rw [pagesOf_of_fileOf? found file]
  rw [← cousins.catalog] at found
  rw [pagesOf_of_fileOf? found file']

theorem cousins_of_viewed (left : Viewed mine txn e₁ t₁) (right : Viewed mine txn e₂ t₂)
    (locks : ∀ p, mine p.table → t₂.locks.mode? txn p = t₁.locks.mode? txn p) : Cousins c mine txn t₁ t₂ where
  left := left.running
  right := right.running
  registered := left.catalog.trans cousins.registered
  view? p own := (right.view? p own).trans ((cousins.view? p own).trans (left.view? p own).symm)
  locks := locks
  pageSize := right.pageSize.trans (cousins.pageSize.trans left.pageSize.symm)
  catalog := right.catalog.trans (cousins.catalog.trans left.catalog.symm)
  tables := by rw [right.volume, left.volume, cousins.tables]
  contents name own := by
    rw [left.volume] at own
    rw [right.volume, left.volume, cousins.contents name own]

theorem cousins_of_lengthened {table : TableId} {f g : TableFile} (own : mine table) (left : Lengthened table f e₁ t₁)
    (right : Lengthened table g e₂ t₂) (sturdy₁ : t₁.Sturdy) (sturdy₂ : t₂.Sturdy) :
    f.pages = g.pages ∧ Cousins c mine txn t₁ t₂ := by
  obtain ⟨⟨reads, writes, file⟩, contents⟩ :=
    cousins.contentsOf_eq cousins.left.shelved cousins.right.shelved own left.file
  cases right.file.symm.trans file
  obtain ⟨running₁, view₁⟩ := cousins.left.running_lengthened left sturdy₁
  obtain ⟨running₂, view₂⟩ := cousins.right.running_lengthened right sturdy₂
  refine ⟨rfl, ⟨?_, ?_, ?_, ?_⟩, running₁, running₂, left.catalog.trans cousins.registered, ?_, ?_⟩
  · rw [left.pageSize, right.pageSize, cousins.pageSize]
  · rw [left.catalog, right.catalog, cousins.catalog]
  · rw [left.tables, right.tables, cousins.tables]
  · intro name owned
    rw [Volume.number?, left.tables, ← Volume.number?] at owned
    rw [left.contents, right.contents]
    split
    · exact congrArg (fun bytes => (f.extend bytes).1) contents
    · exact cousins.contents name owned
  · intro p owned
    rw [view₁, view₂, cousins.view? p owned]
  · intro p owned
    rw [left.locks, right.locks, cousins.locks p owned]

omit cousins in
/-- The transaction may do with its tables what it likes. -/
theorem pairing_cousins (c : Catalog) (mine : TableId → Prop) (txn : TxnId) :
    Pairing c txn mine (Cousins c mine txn) fun page t₁ t₂ => mine page.id.table ∧
      t₁.resident.get? page.id = some page ∧ t₂.resident.get? page.id = some page where
  catalog cousins := ⟨cousins.registered, cousins.catalog.trans cousins.registered⟩
  pagesOf cousins own found := cousins.pagesOf_eq own found
  holds cousins own := by rw [LockTable.holds, LockTable.holds, cousins.locks _ own]
  getPage := by
    intro e₁ e₂ p cousins own mode
    refine .of_ensures (cousins.left.getPage_views own mode) (cousins.right.getPage_views own mode) ?_
    rintro x t₁ y t₂ ⟨answered₁, viewed₁, locks₁, here₁⟩ ⟨answered₂, viewed₂, locks₂, here₂⟩
    have after : Cousins c mine txn t₁ t₂ := by
      refine cousins.cousins_of_viewed viewed₁ viewed₂ fun q owned => ?_
      rw [locks₁, locks₂, LockTable.mode?_grant, LockTable.mode?_grant, cousins.locks q owned, cousins.locks p own]
    rw [cousins.having_eq own] at answered₂
    rcases answered₁ with rfl | rfl
    · exact .full_left
    · rcases answered₂ with rfl | rfl
      · exact .full_right
      · cases result : e₁.having p with
        | error fault => exact .error_of_twins after
        | ok page =>
          obtain ⟨rfl, left⟩ := here₁ page result
          exact ⟨rfl, after, rfl, fun _ => ⟨own, left, (here₂ page result).2⟩⟩
  unlockUnless := by
    intro e₁ e₂ p cousins own held
    refine .of_ensures (cousins.left.unlockUnless_views own held) (cousins.right.unlockUnless_views own held) ?_
    rintro _ t₁ _ t₂ ⟨rfl, viewed₁, locks₁⟩ ⟨rfl, viewed₂, locks₂⟩
    refine ⟨rfl, cousins.cousins_of_viewed viewed₁ viewed₂ fun q owned => ?_⟩
    rw [locks₁, locks₂, cousins.locks q owned]
  extendFile := by
    intro e₁ e₂ table entry cousins own found
    have found₁ := found
    have found₂ := found
    rw [← cousins.registered] at found₁
    rw [← cousins.registered, ← cousins.catalog] at found₂
    refine .of_ensures (cousins.left.extendFile_lengthens found₁) (cousins.right.extendFile_lengthens found₂) ?_
    rintro (fault | p) t₁ (fault' | q) t₂ first second
    · exact first.elim
    · exact first.elim
    · exact second.elim
    · obtain ⟨f, left, rfl, sturdy₁⟩ := first
      obtain ⟨g, right, rfl, sturdy₂⟩ := second
      obtain ⟨pages, after⟩ := cousins.cousins_of_lengthened own left right sturdy₁ sturdy₂
      exact ⟨by rw [pages], after, own⟩
  markDirty := by
    rintro e₁ e₂ page slot content cousins ⟨own, left, right⟩ - fits
    refine .of_ensures (markDirty_ensures e₁ txn (page.putAt slot content))
      (markDirty_ensures e₂ txn (page.putAt slot content)) ?_
    rintro (fault | _) t₁ (fault' | _) t₂ first second
    · exact first.elim
    · exact first.elim
    · exact second.elim
    · obtain rfl : t₁ = _ := first
      obtain rfl : t₂ = _ := second
      obtain ⟨running₁, view₁⟩ := cousins.left.running_marked own left fits rfl
      obtain ⟨running₂, view₂⟩ := cousins.right.running_marked own right fits rfl
      have same : SameBytes mine ((e₁.keeping (page.putAt slot content)).keeping ((page.putAt slot content).markDirty txn))
          ((e₂.keeping (page.putAt slot content)).keeping ((page.putAt slot content).markDirty txn)) :=
        ⟨cousins.pageSize, cousins.catalog, cousins.tables, cousins.contents⟩
      refine ⟨rfl, same, running₁, running₂, cousins.registered, fun q owned => ?_, cousins.locks⟩
      rw [view₁, view₂, cousins.view? q owned]

end Cousins

/-! ### The end of the transaction -/

/-- The transaction has ended in both. Nobody else uses its tables, and their files are the same. -/
structure Retired (c : Catalog) (mine : TableId → Prop) (txn : TxnId) (e₁ e₂ : Engine) : Prop
    extends SameBytes mine e₁ e₂ where
  left : Sole mine txn e₁
  right : Sole mine txn e₂
  registered : e₁.catalog = c

theorem Sole.sole_of_parted (sole : Sole mine txn e) (parted : Parted txn e e') (sturdy : e'.Sturdy) :
    Sole mine txn e' where
  toSturdy := sturdy
  alone p holder own differs := by
    rw [parted.locks]
    exact free_of_releaseAll _ _ (sole.alone p holder own differs)
  changed p page other own here dirty := sole.changed p page other own (parted.changes here dirty) dirty

namespace Cousins

variable {c : Catalog} {e₁ e₂ t₁ t₂ : Engine} (cousins : Cousins c mine txn e₁ e₂)

include cousins

theorem get?_of_dirty {page : Page} (here : e₁.resident.get? p = some page) (dirty : page.dirtier = some txn) :
    e₂.resident.get? p = some page := by
  have seen := cousins.view? p (cousins.left.within p page here dirty)
  rw [view?_of_resident here] at seen
  exact resident_of_dirty seen (by rw [dirty]; exact Option.some_ne_none txn)

theorem dirtyPages_eq : e₂.dirtyPages txn = e₁.dirtyPages txn := by
  apply PageId.sorted_eq_of_perm
  rw [List.perm_ext_iff_of_nodup (FinMap.nodup_keys _) (FinMap.nodup_keys _)]
  intro p
  have first := e₁.mem_dirtyPages_iff_resident txn p
  have second := e₂.mem_dirtyPages_iff_resident txn p
  rw [Engine.dirtyPages, mem_sorted_iff] at first second
  rw [first, second]
  constructor
  · rintro ⟨page, here, dirty⟩
    exact ⟨page, cousins.symm.get?_of_dirty here dirty, dirty⟩
  · rintro ⟨page, here, dirty⟩
    exact ⟨page, cousins.get?_of_dirty here dirty, dirty⟩

theorem sameBytes_of_saved {pages : List PageId} (among : ∀ p ∈ pages, p ∈ e₁.dirtyPages txn)
    (left : Saved pages (e₁.releaseAll txn) t₁) (right : Saved pages (e₂.releaseAll txn) t₂) :
    SameBytes mine t₁ t₂ := by
  have pageSize₁ : t₁.settings.pageSize = e₁.settings.pageSize := congrArg Settings.pageSize left.settings
  have pageSize₂ : t₂.settings.pageSize = e₂.settings.pageSize := congrArg Settings.pageSize right.settings
  refine ⟨?_, ?_, ?_, ?_⟩
  · rw [pageSize₁, pageSize₂, cousins.pageSize]
  · exact right.catalog.trans (cousins.catalog.trans left.catalog.symm)
  · exact right.numbers.trans (cousins.tables.trans left.numbers.symm)
  · intro name own
    refine List.ext_getElem? fun i => ?_
    -- a byte that lies in none of the pages is as it was, and the others are bytes of the same page in both
    by_cases beside : ∀ p ∈ pages, e₁.Beside name i p
    · have beside₂ : ∀ p ∈ pages, e₂.Beside name i p := by
        intro p written
        rw [Beside, cousins.number?_eq, cousins.pageSize]
        exact beside p written
      rw [left.others name i beside, right.others name i beside₂]
      rw [left.number?_eq] at own
      exact congrArg (·[i]?) (cousins.contents name own)
    · obtain ⟨p, inside⟩ := not_forall.mp beside
      obtain ⟨written, inside⟩ := Classical.not_imp.mp inside
      obtain ⟨numbered, inside⟩ := Classical.not_imp.mp inside
      obtain ⟨start, stop⟩ := not_or.mp inside
      obtain ⟨page, here, dirty⟩ := (e₁.mem_dirtyPages_iff_resident txn p).mp (among p written)
      obtain ⟨name₁, numbered₁, stored₁⟩ := left.stored p written page here
      obtain ⟨name₂, numbered₂, stored₂⟩ := right.stored p written page (cousins.get?_of_dirty here dirty)
      obtain rfl : name₁ = name := Volume.number?_inj numbered₁ numbered
      obtain rfl : name₂ = name₁ := Volume.number?_inj ((cousins.number?_eq name₂).symm.trans numbered₂) numbered
      have same : (t₁.volume.contents name₂).region (p.number * e₁.settings.pageSize) e₁.settings.pageSize =
          (t₂.volume.contents name₂).region (p.number * e₁.settings.pageSize) e₁.settings.pageSize := by
        rw [pageBytes, pageSize₁] at stored₁
        rw [pageBytes, pageSize₂, cousins.pageSize] at stored₂
        rw [stored₁, stored₂]
      rw [Nat.succ_mul] at stop
      exact (Bytes.getElem?_of_region same (Nat.not_lt.mp start) (Nat.not_le.mp stop)).symm

theorem commit_agrees : Agrees (Retired c mine txn) (commit txn) (commit txn) e₁ e₂ (Alike (Retired c mine txn)) := by
  have ended : ∀ e, Running mine txn e → e.dirtyPages txn = e₁.dirtyPages txn → e.catalog = e₁.catalog →
      Ensures (Engine.commit txn) e fun answer e' => answer = e₁.verdict (e₁.dirtyPages txn) ∧
        Saved ((e₁.dirtyPages txn).takeWhile e₁.writable) (e.releaseAll txn) e' ∧ Sole mine txn e' := by
    intro e running pages catalog
    have writable : e.writable = e₁.writable := by
      funext p
      rw [Engine.writable, Engine.writable, catalog]
    have saves : Ensures (Engine.commit txn) e _ :=
      .congr (commit_eq txn e) (commitIn_saves running.shelved running.tidy (.refl _))
    refine (saves.and ((commit_unfolds txn e running.tidy).and (commit_parts running.tidy txn))).mono ?_
    rintro answer e' ⟨⟨answered, saved⟩, ⟨tidy, effects⟩, parted, -⟩
    rw [pages, writable] at saved
    rw [verdict, pages, writable] at answered
    exact ⟨answered, saved, running.toSole.sole_of_parted parted (running.toSturdy.of_effects tidy effects)⟩
  refine .of_ensures (ended e₁ cousins.left rfl rfl) (ended e₂ cousins.right cousins.dirtyPages_eq cousins.catalog) ?_
  rintro _ t₁ _ t₂ ⟨rfl, saved₁, sole₁⟩ ⟨rfl, saved₂, sole₂⟩
  have same := cousins.sameBytes_of_saved (fun p among => (List.takeWhile_sublist _).mem among) saved₁ saved₂
  have retired : Retired c mine txn t₁ t₂ := ⟨same, sole₁, sole₂, saved₁.catalog.trans cousins.registered⟩
  cases e₁.verdict (e₁.dirtyPages txn) with
  | ok _ => exact ⟨rfl, retired⟩
  | error fault => exact .error_of_twins retired

theorem abort_agrees : Agrees (Retired c mine txn) (abort txn) (abort txn) e₁ e₂ (Alike (Retired c mine txn)) := by
  have ended : ∀ e, Running mine txn e → ∃ e', Engine.abort txn e = .ok () e' ∧ SameBytes mine e e' ∧
      Sole mine txn e' := by
    intro e running
    obtain ⟨e', done, settings, volume, -⟩ := abort_drops txn e
    obtain ⟨tidy, effects⟩ := (abort_unfolds txn e running.tidy).of_ok done
    have parted := ((abort_parts txn).of_ok done).2.1
    refine ⟨e', done, ⟨congrArg Settings.pageSize settings, catalog_of_effects effects, ?_, ?_⟩, ?_⟩
    · rw [volume]
    · intro name _
      rw [volume]
    · exact running.toSole.sole_of_parted parted (running.toSturdy.of_effects tidy effects)
  obtain ⟨t₁, done₁, same₁, sole₁⟩ := ended e₁ cousins.left
  obtain ⟨t₂, done₂, same₂, sole₂⟩ := ended e₂ cousins.right
  exact .of_ok done₁ done₂
    ⟨rfl, (same₁.symm.trans cousins.toSameBytes).trans same₂, sole₁, sole₂, same₁.catalog.trans cousins.registered⟩

end Cousins

end Engine

end RowStore
