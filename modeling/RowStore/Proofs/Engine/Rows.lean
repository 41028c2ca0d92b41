import RowStore.Proofs.Engine.Files
/-!
# Storing and removing rows

Looking for room leaves the pages as a reader finds them; a row goes to the lowest free slot of the
first page that has one, and to a new page when there is none. The page it goes to is in memory and
held exclusively, and from then on it holds a change.
-/

namespace RowStore.Engine

/-- The transaction has looked at pages and done nothing else. -/
structure Browsed (txn : TxnId) (e e' : Engine) : Prop where
  swapped : Swapped e e'
  locks : LockTable.Extends txn e.locks e'.locks

/-- Somebody stands in the way, or there is no room in memory. -/
def Interrupted (txn : TxnId) (fault : Fault) (e : Engine) : Prop :=
  fault = .aborted txn ∨ (fault = .poolFull ∧ e.Stuck)

def Full (e : Engine) (p : PageId) : Prop :=
  ∃ page, e.view? p = some page ∧ ∀ slot < page.slots.length, page.isUsed slot

/-- The transaction has the page in memory and to itself. -/
structure Owns (txn : TxnId) (e : Engine) (page : Page) : Prop where
  resident : e.resident.get? page.id = some page
  exclusive : e.locks.mode? txn page.id = some .exclusive

structure Room (page : Page) (slot : Nat) : Prop where
  inside : slot < page.slots.length
  free : page.valuesAt slot = none
  lowest : ∀ lower < slot, page.isUsed lower

def keeping (e : Engine) (page : Page) : Engine :=
  { e with resident := e.resident.insert page.id page }

namespace Browsed

variable {txn : TxnId} {e e' e'' : Engine}

theorem refl (coherent : e.Coherent) : Browsed txn e e := ⟨.refl coherent, .refl⟩

theorem trans (first : Browsed txn e e') (second : Browsed txn e' e'') : Browsed txn e e'' :=
  ⟨first.swapped.trans second.swapped, first.locks.trans second.locks⟩

theorem coherent_after (browsed : Browsed txn e e') : e'.Coherent := browsed.swapped.coherent

theorem full_iff (browsed : Browsed txn e e') (p : PageId) : e'.Full p ↔ e.Full p := by
  rw [Full, Full, browsed.swapped.view?_eq]

theorem fileOf?_eq (browsed : Browsed txn e e') (table : TableId) : e'.fileOf? table = e.fileOf? table :=
  browsed.swapped.to_sameFiles.fileOf?_kept table

end Browsed

theorem Owns.view?_eq_some {txn : TxnId} {e : Engine} {page : Page} (owns : Owns txn e page) :
    e.view? page.id = some page :=
  view?_of_resident owns.resident

section Browsing

variable {e : Engine} (coherent : e.Coherent) (txn : TxnId) (p : PageId)

include coherent

theorem getPage_browses (mode : LockMode) : Ensures (getPage txn p mode) e fun
    | .ok page, e' => Browsed txn e e' ∧ e.view? p = some page ∧ page.id = p ∧
        e'.resident.get? p = some page ∧
        (mode = .exclusive → e'.locks.mode? txn p = some .exclusive)
    | .error fault, e' => Browsed txn e e' ∧
        (Interrupted txn fault e' ∨ (e.view? p = none ∧ fault = e.missing p)) := by
  refine (getPage_ensures coherent txn p mode).mono ?_
  intro answer e' outcome
  cases answer with
  | error fault =>
    obtain ⟨swapped, -, ⟨-, aborted, locks⟩ | ⟨clear, locks, -, reason⟩⟩ := outcome
    · refine ⟨⟨swapped, ?_⟩, .inl (.inl aborted)⟩
      rw [locks]
      exact .extends_giveUp
    · refine ⟨⟨swapped, ?_⟩, ?_⟩
      · rw [locks]
        exact .extends_grant p mode clear
      · rcases reason with stuck | absent
        · exact .inl (.inr stuck)
        · exact .inr absent
  | ok page =>
    obtain ⟨clear, seen, swapped, locks, resident, -⟩ := outcome
    refine ⟨⟨swapped, ?_⟩, seen, coherent.id_eq_of_view? seen, resident, ?_⟩
    · rw [locks]
      exact .extends_grant p mode clear
    · intro exclusive
      subst exclusive
      rw [locks, LockTable.mode?_grant_self _ ⟨txn, p, .exclusive⟩, ite_self]

/-- A page that exists is had, or somebody stands in the way, or memory is full. -/
theorem getPage_browses_file (mode : LockMode) (f : TableFile) (file : e.fileOf? p.table = some f)
    (inside : p.number < f.pages) : Ensures (getPage txn p mode) e fun
    | .ok page, e' => Browsed txn e e' ∧ e.view? p = some page ∧ page.id = p ∧
        e'.resident.get? p = some page ∧
        (mode = .exclusive → e'.locks.mode? txn p = some .exclusive)
    | .error fault, e' => Browsed txn e e' ∧ Interrupted txn fault e' := by
  refine (getPage_browses coherent txn p mode).mono ?_
  intro answer e' outcome
  cases answer with
  | ok page => exact outcome
  | error fault =>
    obtain ⟨browsed, interrupted | ⟨absent, -⟩⟩ := outcome
    · exact ⟨browsed, interrupted⟩
    · obtain ⟨page, seen, -⟩ := coherent.exists_view file inside
      rw [seen] at absent
      exact absurd absent (Option.some_ne_none page)

omit coherent in
theorem unlockUnless_ensures {e' : Engine} (browsed : Browsed txn e e') :
    Ensures (unlockUnless (e.locks.holds txn p) txn p) e' fun
    | .ok _, e'' => Browsed txn e e''
    | .error _, _ => False := by
  cases held : e.locks.holds txn p with
  | true => exact browsed
  | false =>
    have free : e.locks.mode? txn p = none := by
      rw [LockTable.holds, Option.isSome_eq_false_iff, Option.isNone_iff_eq_none] at held
      exact held
    refine ⟨browsed.swapped.trans ?_, browsed.locks.extends_release p free⟩
    exact browsed.coherent_after.swapped_same ⟨rfl, rfl, rfl, rfl⟩ rfl

end Browsing

/-! ### Looking for room -/

section Insert

variable {e : Engine} (coherent : e.Coherent) (txn : TxnId) (row : Row) {table : TableId}
  {f : TableFile} (file : e.fileOf? table = some f) (types : row.schema.sameTypes f.schema)

include coherent file types

/-- Either the page is full, or the row takes its lowest free slot. -/
theorem insertOn_ensures (p : PageId) (own : p.table = table) (inside : p.number < f.pages) :
    Ensures (insertOn txn p row) e fun
    | .ok none, e' => Browsed txn e e' ∧ e.Full p
    | .ok (some location), e' => ∃ e₁ page slot, Browsed txn e e₁ ∧ Owns txn e₁ page ∧
        Room page slot ∧ page.id = p ∧ location = page.locate slot ∧
        e' = e₁.keeping (page.putAt slot (some row.values))
    | .error fault, e' => Browsed txn e e' ∧ Interrupted txn fault e' := by
  subst own
  refine .get_bind ((getPage_browses_file coherent txn p .exclusive f file inside).bind ?_ ?_)
  · rintro page e₁ ⟨browsed, seen, rfl, resident, exclusive⟩
    by_cases full : page.freeSlots = 0
    · have used := page.freeSlots_eq_zero_iff.mp full
      rw [if_pos full]
      refine (unlockUnless_ensures txn page.id browsed).bind ?_ fun _ _ => False.elim
      intro _ e₂ browsed₂
      exact .pure ⟨browsed₂, page, seen, used⟩
    · rw [if_neg full]
      obtain ⟨g, same, -, of⟩ := coherent.of_of_view? seen
      rw [file] at same
      cases same
      refine (place_ensures page row e₁).map ?_ ?_
      · rintro location e' ⟨slot, within, -, free, lowest, rfl, rfl⟩
        exact ⟨e₁, page, slot, browsed, ⟨resident, exclusive rfl⟩, ⟨within, free, lowest⟩, rfl, rfl, rfl⟩
      · rintro fault e' ⟨-, refused⟩
        exact absurd (refused (of.schema ▸ types)) full
  · rintro fault e' failed
    exact failed

/-- The row goes to the first of the pages that is not full. -/
theorem insertOnFirst_ensures (pages : List PageId)
    (inside : ∀ p ∈ pages, p.table = table ∧ p.number < f.pages) :
    Ensures (insertOnFirst txn row pages) e fun
    | .ok none, e' => Browsed txn e e' ∧ ∀ p ∈ pages, e.Full p
    | .ok (some location), e' => ∃ e₁ page slot, Browsed txn e e₁ ∧ Owns txn e₁ page ∧
        Room page slot ∧ location = page.locate slot ∧
        e' = e₁.keeping (page.putAt slot (some row.values)) ∧
        ∃ before after, pages = before ++ page.id :: after ∧ ∀ p ∈ before, e.Full p
    | .error fault, e' => Browsed txn e e' ∧ Interrupted txn fault e' := by
  induction pages generalizing e with
  | nil =>
    refine .pure ⟨.refl coherent, ?_⟩
    simp
  | cons p rest ih =>
    obtain ⟨own, within⟩ := inside p List.mem_cons_self
    refine (insertOn_ensures coherent txn row file types p own within).bind ?_ fun _ _ failed => failed
    rintro (_ | location) e₁
    · rintro ⟨browsed, full⟩
      have file₁ : e₁.fileOf? table = some f := by rw [browsed.fileOf?_eq, file]
      refine (ih browsed.coherent_after file₁ fun q later => inside q (List.mem_cons_of_mem _ later)).mono ?_
      rintro (fault | _ | location) e'
      · rintro ⟨browsed', interrupted⟩
        exact ⟨browsed.trans browsed', interrupted⟩
      · rintro ⟨browsed', fullRest⟩
        refine ⟨browsed.trans browsed', ?_⟩
        intro q among
        rcases List.mem_cons.mp among with rfl | later
        · exact full
        · exact (browsed.full_iff q).mp (fullRest q later)
      · rintro ⟨e₂, page, slot, browsed', owns, room, same, rfl, before, after, rfl, fullBefore⟩
        refine ⟨e₂, page, slot, browsed.trans browsed', owns, room, same, rfl, p :: before, after, rfl, ?_⟩
        intro q among
        rcases List.mem_cons.mp among with rfl | later
        · exact full
        · exact (browsed.full_iff q).mp (fullBefore q later)
    · rintro ⟨e₂, page, slot, browsed, owns, room, rfl, rfl, rfl⟩
      refine ⟨e₂, page, slot, browsed, owns, room, rfl, rfl, [], rest, rfl, ?_⟩
      simp

/-- A new page is empty, so it takes the row and no other new page is asked for. -/
theorem insertOnNew_ensures {entry : TableEntry} (found : e.catalog.find? table = some entry) (tries : Nat) :
    Ensures (insertOnNew txn entry.file table row (tries + 1)) e fun
    | .ok location, e' => ∃ e₀ e₁ page slot, Grown table f e e₀ ∧ Browsed txn e₀ e₁ ∧
        Owns txn e₁ page ∧ Room page slot ∧ page.id = ⟨table, f.pages⟩ ∧ location = page.locate slot ∧
        e' = e₁.keeping (page.putAt slot (some row.values))
    | .error fault, e' => ∃ e₀, Grown table f e e₀ ∧ Browsed txn e₀ e' ∧ Interrupted txn fault e' := by
  refine (extendFile_ensures coherent table entry found).bind ?_ fun _ _ => False.elim
  intro p e₀ extended
  obtain ⟨g, rfl, grown⟩ := extended
  have same := grown.file
  rw [file] at same
  cases same
  have own : f.table = table := coherent.table_eq_of_fileOf? file
  have file₀ : e₀.fileOf? table = some { f with pages := f.pages + 1 } := by
    rw [grown.fileOf?_after, if_pos rfl]
  refine (insertOn_ensures grown.after txn row file₀ types (f.pageId f.pages) own
    (Nat.lt_succ_self _)).bind ?_ ?_
  · intro answer e' done
    cases answer with
    | some location =>
      obtain ⟨e₁, page, slot, browsed, owns, room, id, same, changed⟩ := done
      refine .pure ⟨e₀, e₁, page, slot, grown, browsed, owns, room, ?_, same, changed⟩
      rw [id, TableFile.pageId, own]
    | none =>
      obtain ⟨-, page, seen, used⟩ := done
      obtain ⟨-, room, -⟩ := coherent.sized file
      rw [grown.view?_after, if_pos rfl] at seen
      cases seen
      have first := used 0 (by simpa only [Page.blank, List.length_replicate] using room)
      rw [Page.isUsed_eq, Page.valuesAt_blank] at first
      exact absurd first (by simp)
  · intro fault e' failed
    exact ⟨e₀, grown, failed⟩

end Insert

/-- The transaction has looked for room in the table: on its pages, and on a new one once all of
them were full. -/
inductive Sought (txn : TxnId) (table : TableId) (f : TableFile) (e e' : Engine) : Prop where
  | among (browsed : Browsed txn e e')
  | beyond (e₀ e₁ : Engine) (full : ∀ number < f.pages, e.Full ⟨table, number⟩)
      (before : Browsed txn e e₀) (grown : Grown table f e₀ e₁) (after : Browsed txn e₁ e')

theorem Sought.coherent_after {txn : TxnId} {table : TableId} {f : TableFile} {e e' : Engine}
    (sought : Sought txn table f e e') : e'.Coherent := by
  cases sought with
  | among browsed => exact browsed.coherent_after
  | beyond _ _ _ _ _ after => exact after.coherent_after

theorem Sought.fileOf?_longer {txn : TxnId} {table : TableId} {f : TableFile} {e e' : Engine}
    (sought : Sought txn table f e e') (file : e.fileOf? table = some f) :
    ∃ pages, f.pages ≤ pages ∧ e'.fileOf? table = some { f with pages } := by
  cases sought with
  | among browsed => exact ⟨f.pages, Nat.le_refl _, by rw [browsed.fileOf?_eq, file]⟩
  | beyond e₀ e₁ full before grown after =>
    refine ⟨f.pages + 1, Nat.le_succ _, ?_⟩
    rw [after.fileOf?_eq, grown.fileOf?_after, if_pos rfl]

theorem Sought.to_sameTables {txn : TxnId} {table : TableId} {f : TableFile} {e e' : Engine}
    (sought : Sought txn table f e e') : SameTables e e' := by
  cases sought with
  | among browsed => exact browsed.swapped.to_sameFiles.to_sameTables
  | beyond e₀ e₁ full before grown after =>
    exact (before.swapped.to_sameFiles.to_sameTables.trans grown.to_sameTables).trans
      after.swapped.to_sameFiles.to_sameTables

/-- The pages of a file are in order, so those before one of them are those of lower numbers. -/
theorem mem_before_of_lt {table : TableId} {pages number : Nat} {p : PageId} {before after : List PageId}
    (split : (List.range pages).map (PageId.mk table) = before ++ p :: after) (inside : p.number < pages)
    (lower : number < p.number) : PageId.mk table number ∈ before := by
  have sorted : ((List.range pages).map (PageId.mk table)).Pairwise fun a b => a.number < b.number :=
    List.pairwise_map.mpr List.pairwise_lt_range
  have listed : PageId.mk table number ∈ (List.range pages).map (PageId.mk table) :=
    List.mem_map_of_mem (List.mem_range.mpr (Nat.lt_trans lower inside))
  rw [split] at listed sorted
  rcases List.mem_append.mp listed with earlier | later
  · exact earlier
  · have ordered := (List.pairwise_cons.mp (List.pairwise_append.mp sorted).2.1).1
    rcases List.mem_cons.mp later with rfl | later
    · exact absurd lower (Nat.lt_irrefl _)
    · exact absurd lower (Nat.lt_asymm (ordered _ later))

theorem insertInFile_ensures {e : Engine} (coherent : e.Coherent) (txn : TxnId) (row : Row)
    {table : TableId} {f : TableFile} (file : e.fileOf? table = some f)
    (types : row.schema.sameTypes f.schema) {entry : TableEntry}
    (found : e.catalog.find? table = some entry) :
    Ensures (insertInFile txn entry.file table row) e fun
    | .ok location, e' => ∃ e₁ page slot, Sought txn table f e e₁ ∧ Owns txn e₁ page ∧
        Room page slot ∧ page.id.table = table ∧
        (∀ number < page.id.number, e.Full ⟨table, number⟩) ∧ location = page.locate slot ∧
        e' = e₁.keeping (page.putAt slot (some row.values))
    | .error fault, e' => Sought txn table f e e' ∧ Interrupted txn fault e' := by
  have pages := pagesOf_of_fileOf? found file
  have inside : ∀ p ∈ (List.range f.pages).map (PageId.mk table), p.table = table ∧ p.number < f.pages := by
    intro p among
    obtain ⟨number, within, rfl⟩ := List.mem_map.mp among
    exact ⟨rfl, List.mem_range.mp within⟩
  refine .get_bind ?_
  rw [pages]
  refine (insertOnFirst_ensures coherent txn row file types _ inside).bind ?_ ?_
  · intro answer e' done
    cases answer with
    | some location =>
      obtain ⟨e₁, page, slot, browsed, owns, room, same, changed, before, after, split, full⟩ := done
      have among := inside page.id (by rw [split]; simp)
      refine .pure ⟨e₁, page, slot, .among browsed, owns, room, among.1, ?_, same, changed⟩
      exact fun number lower => full _ (mem_before_of_lt split among.2 lower)
    | none =>
      obtain ⟨browsed, full⟩ := done
      have allFull : ∀ number < f.pages, e.Full ⟨table, number⟩ := fun number within =>
        full _ (List.mem_map_of_mem (List.mem_range.mpr within))
      have file' : e'.fileOf? table = some f := by rw [browsed.fileOf?_eq, file]
      have found' : e'.catalog.find? table = some entry := by rw [browsed.swapped.to_sameFiles.catalog, found]
      refine .get_bind ((insertOnNew_ensures browsed.coherent_after txn row file' types found' _).mono ?_)
      intro answer e₂ done
      cases answer with
      | ok location =>
        obtain ⟨e₀, e₁, page, slot, grown, after, owns, room, id, same, changed⟩ := done
        have sought : Sought txn table f e e₁ := .beyond e' e₀ allFull browsed grown after
        refine ⟨e₁, page, slot, sought, owns, room, ?_, ?_, same, changed⟩
        · rw [id]
        · rw [id]
          exact allFull
      | error fault =>
        obtain ⟨e₀, grown, after, interrupted⟩ := done
        exact ⟨.beyond e' e₀ allFull browsed grown after, interrupted⟩
  · intro fault e' failed
    exact ⟨.among failed.1, failed.2⟩

/-! ### Changing a page -/

/-- The transaction has put other contents in one slot of a page that it had to itself. -/
structure Changed (txn : TxnId) (page : Page) (slot : Nat) (content : Option (List Value))
    (e e' : Engine) : Prop where
  before : e.Coherent
  after : e'.Coherent
  owns : Owns txn e page
  inside : slot < page.slots.length
  surface : e'.surface = e.surface.set page.id (some ((page.putAt slot content).markDirty txn))

namespace Changed

variable {txn : TxnId} {page : Page} {slot : Nat} {content : Option (List Value)} {e e' : Engine}
  (changed : Changed txn page slot content e e')

include changed

theorem to_sameFiles : SameFiles e e' where
  pageSize := congrArg Surface.pageSize changed.surface
  volume := congrArg Surface.volume changed.surface
  catalog := congrArg Surface.catalog changed.surface
  files := congrArg Surface.files changed.surface

theorem locks_eq : e'.locks = e.locks := congrArg Surface.locks changed.surface

theorem view?_after (p : PageId) :
    e'.view? p = if p = page.id then some ((page.putAt slot content).markDirty txn) else e.view? p :=
  congrFun (congrArg Surface.view changed.surface) p

end Changed

theorem Coherent.changed_putAt {e : Engine} (coherent : e.Coherent) {txn : TxnId} {page : Page} {slot : Nat}
    {content : Option (List Value)} (owns : Owns txn e page) (inside : slot < page.slots.length)
    (fits : ∀ values, content = some values → Row.Fits values page.schema.types) :
    Changed txn page slot content e
      ((e.keeping (page.putAt slot content)).keeping ((page.putAt slot content).markDirty txn)) := by
  let marked := (page.putAt slot content).markDirty txn
  let e' := (e.keeping (page.putAt slot content)).keeping marked
  have files : SameFiles e e' := ⟨rfl, rfl, rfl, rfl⟩
  have resident : ∀ q, e'.resident.get? q = if q = page.id then some marked else e.resident.get? q := by
    intro q
    change ((e.resident.insert page.id _).insert page.id marked).get? q = _
    rw [FinMap.get?_insert, FinMap.get?_insert]
    split
    · rfl
    · rfl
  obtain ⟨f, file, within, of, -⟩ := coherent.resident owns.resident
  have marks : marked.Of f page.id.number :=
    ⟨of.id, of.schema, of.size, (of.sound.sound_putAt slot content fits).sound_markDirty txn⟩
  have after : e'.Coherent := by
    refine ⟨coherent.opened, coherent.sized, coherent.apart, coherent.stored, ?_⟩
    intro p copy found
    rw [resident] at found
    split at found
    · rename_i own
      cases found
      rw [own]
      exact ⟨f, file, within, marks, fun clean => absurd clean (by simp [marked, Page.markDirty])⟩
    · exact coherent.resident found
  refine ⟨coherent, after, owns, inside, ?_⟩
  have view : e'.view? = fun q => if q = page.id then some marked else e.view? q := by
    funext q
    rw [Engine.view?, resident, files.stored?_kept]
    split
    · rw [Option.some_or]
    · rfl
  change e'.surface = _
  rw [Engine.surface, view]
  rfl

theorem markDirty_ensures (e : Engine) (txn : TxnId) (page : Page) :
    Ensures (markDirty txn (.current page.id)) (e.keeping page) fun
    | .ok _, e' => e' = (e.keeping page).keeping (page.markDirty txn)
    | .error _, _ => False := by
  have resident : (e.keeping page).resident.get? page.id = some page := FinMap.get?_insert_self ..
  have done : markDirty txn (.current page.id) (e.keeping page) =
      .ok () ((e.keeping page).keeping (page.markDirty txn)) := by
    rw [markDirty_current, resident]
    rfl
  rw [Ensures, done]

/-- A row of the table's schema is stored in the lowest free slot of the first page that has one, or
of a new page, unless somebody stands in the way or memory is full. -/
theorem insert_ensures {e : Engine} (coherent : e.Coherent) (txn : TxnId) (table : TableId) (row : Row)
    (fits : Row.Fits row.values row.schema.types) : Ensures (insert txn table row) e fun
    | .ok location, e' => ∃ f e₁ page slot, e.fileOf? table = some f ∧
        row.schema.sameTypes f.schema ∧ Sought txn table f e e₁ ∧ Room page slot ∧
        page.id.table = table ∧ (∀ number < page.id.number, e.Full ⟨table, number⟩) ∧
        location = page.locate slot ∧ Changed txn page slot (some row.values) e₁ e'
    | .error fault, e' =>
        (∃ f, e.fileOf? table = some f ∧ row.schema.sameTypes f.schema ∧ Sought txn table f e e' ∧
          Interrupted txn fault e') ∨
        (e' = e ∧ e.fileOf? table = none ∧ fault = .unknownTable table) ∨
        (e' = e ∧ ∃ f, e.fileOf? table = some f ∧ ¬row.schema.sameTypes f.schema ∧
          fault = .schemaMismatch f.schema row.schema) := by
  refine (resolve_ensures table).bind ?_ ?_
  · intro entry e resolved
    obtain ⟨rfl, found⟩ := resolved
    obtain ⟨f, file, -, schema⟩ := coherent.opened found
    by_cases types : row.schema.sameTypes f.schema
    · have checked : checkSchema entry.schema row.schema = pure () := by
        rw [checkSchema, ← schema, if_pos types]
      rw [checked]
      refine (insertInFile_ensures coherent txn row file types found).bind ?_ ?_
      · intro location e' done
        obtain ⟨e₁, page, slot, sought, owns, room, own, full, rfl, rfl⟩ := done
        refine (markDirty_ensures e₁ txn (page.putAt slot (some row.values))).bind ?_
          fun _ _ => False.elim
        intro _ e' same
        obtain rfl : e' = _ := same
        have pageTypes : row.schema.types = page.schema.types := by
          obtain ⟨g, same, -, of⟩ := sought.coherent_after.of_of_view? owns.view?_eq_some
          obtain ⟨pages, -, file₁⟩ := sought.fileOf?_longer file
          rw [own, file₁] at same
          cases same
          rw [of.schema]
          exact of_decide_eq_true types
        have fitsPage : ∀ values, some row.values = some values → Row.Fits values page.schema.types := by
          intro values same
          cases same
          rw [← pageTypes]
          exact fits
        have changed := sought.coherent_after.changed_putAt owns room.inside fitsPage
        exact .pure ⟨f, e₁, page, slot, file, types, sought, room, own, full, rfl, changed⟩
      · intro fault e' failed
        exact .inl ⟨f, file, types, failed⟩
    · have checked : checkSchema entry.schema row.schema =
          throw (.schemaMismatch f.schema row.schema) := by
        rw [checkSchema, ← schema, if_neg types]
      rw [checked]
      exact .inr (.inr ⟨rfl, f, file, types, rfl⟩)
  · intro fault e' failed
    obtain ⟨rfl, fault, file⟩ := failed
    exact .inr (.inl ⟨rfl, file, fault⟩)

/-! ### Removing a row -/

/-- A row that is there is taken off its page, which stays in memory without it. -/
theorem deleteInFile_ensures {e : Engine} (coherent : e.Coherent) (txn : TxnId) (row : RowId) {entry : TableEntry}
    {f : TableFile} (found : e.catalog.find? row.page.table = some entry) (file : e.fileOf? row.page.table = some f) :
    Ensures (deleteInFile txn entry.file row.page.table (some row)) e fun
    | .ok p, e' => ∃ e₁ page, Browsed txn e e₁ ∧ Owns txn e₁ page ∧ page.id = row.page ∧ p = row.page ∧
        (page.valuesAt row.slot).isSome ∧ row.slot < page.slots.length ∧
        e' = e₁.keeping (page.putAt row.slot none)
    | .error fault, e' => Browsed txn e e' ∧ (Interrupted txn fault e' ∨
        (fault = .rowNotFound row ∧ ∀ page, e.view? row.page = some page → page.valuesAt row.slot = none)) := by
  refine .get_bind ?_
  rw [pagesOf_of_fileOf? found file]
  by_cases inside : row.page.number < f.pages
  · rw [if_neg (by simpa using inside)]
    refine (getPage_browses_file coherent txn row.page .exclusive f file inside).bind ?_
      fun _ _ failed => ⟨failed.1, .inl failed.2⟩
    rintro page e₁ ⟨browsed, seen, id, resident, exclusive⟩
    rcases page.delete_cases row with ⟨-, used, within, done⟩ | ⟨absent, failed⟩
    · rw [done]
      refine ⟨e₁, page, browsed, ⟨?_, ?_⟩, id, rfl, used, within, rfl⟩
      · rw [id, resident]
      · rw [id, exclusive rfl]
    · rw [failed]
      refine ⟨browsed, .inr ⟨rfl, ?_⟩⟩
      intro other same
      cases seen.symm.trans same
      rw [← Option.not_isSome_iff_eq_none]
      exact fun used => absent ⟨id.symm, used⟩
  · rw [if_pos (by simpa using inside)]
    refine ⟨.refl coherent, .inr ⟨rfl, ?_⟩⟩
    intro page seen
    obtain ⟨g, same, within, -⟩ := coherent.of_of_view? seen
    cases file.symm.trans same
    exact absurd within inside

/-- Exactly a row that is there is removed, unless somebody stands in the way or memory is full. -/
theorem delete_ensures {e : Engine} (coherent : e.Coherent) (txn : TxnId) (row : RowId) :
    Ensures (delete txn (some row)) e fun
    | .ok p, e' => ∃ e₁ page, Browsed txn e e₁ ∧ page.id = row.page ∧ p = row.page ∧
        (page.valuesAt row.slot).isSome ∧ Changed txn page row.slot none e₁ e'
    | .error fault, e' => Browsed txn e e' ∧
        (Interrupted txn fault e' ∨
          (fault = .unknownTable row.page.table ∧ e.fileOf? row.page.table = none) ∨
          (fault = .rowNotFound row ∧ e.fileOf? row.page.table ≠ none ∧
            ∀ page, e.view? row.page = some page → page.valuesAt row.slot = none)) := by
  refine (resolve_ensures row.page.table).bind ?_ ?_
  · intro entry e resolved
    obtain ⟨rfl, found⟩ := resolved
    obtain ⟨f, file, -, -⟩ := coherent.opened found
    have known : e.fileOf? row.page.table ≠ none := by
      rw [file]
      exact Option.some_ne_none f
    refine (deleteInFile_ensures coherent txn row found file).bind ?_ ?_
    · intro p e' done
      obtain ⟨e₁, page, browsed, owns, id, rfl, used, within, rfl⟩ := done
      rw [← id]
      refine (markDirty_ensures e₁ txn (page.putAt row.slot none)).bind ?_ fun _ _ => False.elim
      intro _ e' same
      obtain rfl : e' = _ := same
      have empties : ∀ values, (none : Option (List Value)) = some values →
          Row.Fits values page.schema.types := fun _ held => absurd held (by simp)
      have changed := browsed.coherent_after.changed_putAt owns within empties
      exact .pure ⟨e₁, page, browsed, rfl, rfl, used, changed⟩
    · intro fault e' failed
      obtain ⟨browsed, interrupted | ⟨fault, absent⟩⟩ := failed
      · exact ⟨browsed, .inl interrupted⟩
      · exact ⟨browsed, .inr (.inr ⟨fault, known, absent⟩)⟩
  · intro fault e' failed
    obtain ⟨rfl, fault, file⟩ := failed
    exact ⟨.refl coherent, .inr (.inl ⟨fault, file⟩)⟩

end RowStore.Engine
