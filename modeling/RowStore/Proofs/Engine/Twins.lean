import RowStore.Proofs.Agreement
import RowStore.Proofs.Engine.Ending
import RowStore.Proofs.Engine.Pairing
import RowStore.Proofs.Engine.Scan
/-!
# Engines that differ only in memory

Twins have the same surface: a reader finds the same in both, and the same locks are held. Which
pages are in memory, how many there may be and which of them goes first is each one's own affair.
Whatever a transaction does, it does the same to both.
-/

namespace RowStore.Engine

structure Twins (catalog : Catalog) (e₁ e₂ : Engine) : Prop where
  left : e₁.Coherent
  right : e₂.Coherent
  surface : e₁.surface = e₂.surface
  catalog : e₁.catalog = catalog

variable {c : Catalog} {e₁ e₂ t₁ t₂ : Engine} {txn : TxnId}

/-- The transaction has the page to itself in both, and is about to put other contents in one slot. -/
structure Changing (c : Catalog) (txn : TxnId) (page : Page) (slot : Nat) (content : Option (List Value))
    (t₁ t₂ : Engine) : Prop where
  before : ∃ e₁ e₂, Twins c e₁ e₂ ∧ Owns txn e₁ page ∧ Owns txn e₂ page ∧
    t₁ = e₁.keeping (page.putAt slot content) ∧ t₂ = e₂.keeping (page.putAt slot content)
  inside : slot < page.slots.length
  fits : ∀ values, content = some values → Row.Fits values page.schema.types

namespace Twins

variable (twins : Twins c e₁ e₂)

include twins

theorem view?_eq : e₁.view? = e₂.view? := congrArg Surface.view twins.surface

theorem locks_eq : e₁.locks = e₂.locks := congrArg Surface.locks twins.surface

theorem to_sameFiles : SameFiles e₂ e₁ := SameFiles.of_surface twins.surface

theorem missing_eq (p : PageId) : e₁.missing p = e₂.missing p := by
  rw [Engine.missing, Engine.missing, twins.to_sameFiles.fileOf?_kept]

theorem twins_of_swapped (left : Swapped e₁ t₁) (right : Swapped e₂ t₂) (locks : t₁.locks = t₂.locks) :
    Twins c t₁ t₂ where
  left := left.coherent
  right := right.coherent
  surface := by rw [left.surface, right.surface, twins.surface, locks]
  catalog := left.to_sameFiles.catalog.trans twins.catalog

/-! ### Pages -/

theorem getPage_agrees (txn : TxnId) (p : PageId) (mode : LockMode) :
    Agrees (Twins c) (getPage txn p mode) (getPage txn p mode) e₁ e₂ fun a t₁ b t₂ =>
      a = b ∧ Twins c t₁ t₂ ∧ e₁.view? p = some a ∧ a.id = p ∧
        (mode = .exclusive → Owns txn t₁ a ∧ Owns txn t₂ a) := by
  refine .of_ensures (getPage_ensures twins.left txn p mode) (getPage_ensures twins.right txn p mode) ?_
  intro x t₁ y t₂ first second
  rw [twins.locks_eq, twins.view?_eq, twins.missing_eq] at first
  cases x with
  | error fault =>
    obtain ⟨swapped₁, -, ⟨blocked, aborted, locks₁⟩ | ⟨clear, locks₁, -, reason₁⟩⟩ := first
    · cases y with
      | ok b => exact absurd second.1 blocked
      | error other =>
        obtain ⟨swapped₂, -, ⟨-, aborted', locks₂⟩ | ⟨clear, -⟩⟩ := second
        · rw [aborted, aborted']
          exact .error_of_twins (twins.twins_of_swapped swapped₁ swapped₂ (locks₁.trans locks₂.symm))
        · exact absurd clear blocked
    · rcases reason₁ with ⟨rfl, -⟩ | ⟨absent, missing⟩
      · exact .full_left
      · cases y with
        | ok b =>
          rw [absent] at second
          exact absurd second.2.1 (by simp)
        | error other =>
          obtain ⟨swapped₂, -, ⟨blocked, -⟩ | ⟨-, locks₂, -, ⟨rfl, -⟩ | ⟨-, missing'⟩⟩⟩ := second
          · exact absurd clear blocked
          · exact .full_right
          · rw [missing, missing']
            exact .error_of_twins (twins.twins_of_swapped swapped₁ swapped₂ (locks₁.trans locks₂.symm))
  | ok a =>
    obtain ⟨clear, seen, swapped₁, locks₁, resident₁, -⟩ := first
    cases y with
    | error other =>
      obtain ⟨-, -, ⟨blocked, -⟩ | ⟨-, -, -, ⟨rfl, -⟩ | ⟨absent, -⟩⟩⟩ := second
      · exact absurd clear blocked
      · exact .full_right
      · rw [absent] at seen
        exact absurd seen (by simp)
    | ok b =>
      obtain ⟨-, seen', swapped₂, locks₂, resident₂, -⟩ := second
      rw [seen] at seen'
      cases seen'
      have id := twins.right.id_eq_of_view? seen
      refine ⟨rfl, twins.twins_of_swapped swapped₁ swapped₂ (locks₁.trans locks₂.symm), ?_, id, ?_⟩
      · rw [twins.view?_eq]
        exact seen
      · intro exclusive
        subst exclusive
        have granted : (e₂.locks.grant ⟨txn, p, .exclusive⟩).mode? txn p = some .exclusive := by
          rw [LockTable.mode?_grant_self _ ⟨txn, p, .exclusive⟩, ite_self]
        rw [← locks₁] at granted
        refine ⟨⟨by rw [id]; exact resident₁, by rw [id]; exact granted⟩, by rw [id]; exact resident₂, ?_⟩
        rw [id, locks₂, ← locks₁]
        exact granted

theorem ofExcept_twins {α : Type} (x : Except Fault α) :
    Agrees (Twins c) (ofExcept x) (ofExcept x) e₁ e₂ fun a t₁ b t₂ => a = b ∧ Twins c t₁ t₂ ∧ x = .ok a :=
  ofExcept_agrees twins x

theorem extendFile_agrees (table : TableId) (entry : TableEntry) (found : c.find? table = some entry) :
    Agrees (Twins c) (extendFile entry.file table) (extendFile entry.file table) e₁ e₂ (Alike (Twins c)) := by
  rw [← twins.catalog] at found
  have found' : e₂.catalog.find? table = some entry := by
    rw [← twins.to_sameFiles.catalog]
    exact found
  refine .of_ensures (extendFile_ensures twins.left table entry found)
    (extendFile_ensures twins.right table entry found') ?_
  intro x t₁ y t₂ first second
  cases x with
  | error fault => exact first.elim
  | ok p =>
    cases y with
    | error fault => exact second.elim
    | ok q =>
      obtain ⟨f, rfl, grown⟩ := first
      obtain ⟨g, rfl, grown'⟩ := second
      have same := grown.file
      rw [twins.to_sameFiles.fileOf?_kept, grown'.file] at same
      cases same
      obtain ⟨entry₁, found₁, surface₁⟩ := grown.surface
      obtain ⟨entry₂, found₂, surface₂⟩ := grown'.surface
      rw [found] at found₁
      rw [found'] at found₂
      cases found₁
      cases found₂
      refine ⟨rfl, grown.after, grown'.after, ?_, grown.to_sameTables.catalog.trans twins.catalog⟩
      rw [surface₁, surface₂, twins.surface]

theorem unlockUnless_agrees (held : Bool) (txn : TxnId) (p : PageId) :
    Agrees (Twins c) (unlockUnless held txn p) (unlockUnless held txn p) e₁ e₂ (Alike (Twins c)) := by
  cases held with
  | true => exact ⟨rfl, twins⟩
  | false =>
    have left : Swapped e₁ { e₁ with locks := e₁.locks.release txn p } :=
      twins.left.swapped_same ⟨rfl, rfl, rfl, rfl⟩ rfl
    have right : Swapped e₂ { e₂ with locks := e₂.locks.release txn p } :=
      twins.right.swapped_same ⟨rfl, rfl, rfl, rfl⟩ rfl
    refine ⟨rfl, twins.twins_of_swapped left right ?_⟩
    show e₁.locks.release txn p = e₂.locks.release txn p
    rw [twins.locks_eq]

end Twins

theorem Changing.markDirty_agrees {page : Page} {slot : Nat} {content : Option (List Value)}
    (changing : Changing c txn page slot content t₁ t₂) :
    Agrees (Twins c) (markDirty txn (.current page.id)) (markDirty txn (.current page.id)) t₁ t₂ (Alike (Twins c)) := by
  obtain ⟨⟨e₁, e₂, twins, owns₁, owns₂, rfl, rfl⟩, inside, fits⟩ := changing
  refine .of_ensures (markDirty_ensures e₁ txn (page.putAt slot content))
    (markDirty_ensures e₂ txn (page.putAt slot content)) ?_
  intro x t₁ y t₂ first second
  cases x with
  | error fault => exact first.elim
  | ok a =>
    cases y with
    | error fault => exact second.elim
    | ok b =>
      obtain rfl : t₁ = _ := first
      obtain rfl : t₂ = _ := second
      have changed₁ := twins.left.changed_putAt owns₁ inside fits
      have changed₂ := twins.right.changed_putAt owns₂ inside fits
      refine ⟨rfl, changed₁.after, changed₂.after, ?_, changed₁.to_sameFiles.catalog.trans twins.catalog⟩
      rw [changed₁.surface, changed₂.surface, twins.surface]

namespace Twins

/-- Every transaction finds twins alike, and may change the pages that it has to itself. -/
theorem pairing_twins (c : Catalog) (txn : TxnId) :
    Pairing c txn (fun _ => True) (Twins c) fun page t₁ t₂ => Owns txn t₁ page ∧ Owns txn t₂ page where
  catalog twins := ⟨twins.catalog, twins.to_sameFiles.catalog.symm.trans twins.catalog⟩
  pagesOf twins _ _ := twins.to_sameFiles.pagesOf_eq _
  holds twins _ := by rw [twins.locks_eq]
  getPage twins _ mode := (twins.getPage_agrees txn _ mode).mono fun _ _ _ _ ⟨same, twins', _, id, owns⟩ =>
    ⟨same, twins', id, owns⟩
  unlockUnless twins _ held := twins.unlockUnless_agrees held txn _
  extendFile twins _ found := (twins.extendFile_agrees _ _ found).mono fun _ _ _ _ ⟨same, twins'⟩ =>
    ⟨same, twins', trivial⟩
  markDirty twins owns inside fits := Changing.markDirty_agrees ⟨⟨_, _, twins, owns.1, owns.2, rfl, rfl⟩, inside, fits⟩

variable (twins : Twins c e₁ e₂)

include twins

theorem resolve_agrees (table : TableId) : Agrees (Twins c) (resolve table) (resolve table) e₁ e₂ fun a t₁ b t₂ =>
    a = b ∧ Twins c t₁ t₂ ∧ c.find? table = some a :=
  (pairing_twins c ⟨0⟩).resolve_agrees twins table

/-! ### Rows -/

theorem insert_agrees (row : Row) (fits : Row.Fits row.values row.schema.types) (txn : TxnId) (table : TableId) :
    Agrees (Twins c) (insert txn table row) (insert txn table row) e₁ e₂ (Alike (Twins c)) :=
  (pairing_twins c txn).insert_agrees row fits trivial twins

theorem delete_agrees (txn : TxnId) (row : Option RowId) :
    Agrees (Twins c) (delete txn row) (delete txn row) e₁ e₂ (Alike (Twins c)) :=
  (pairing_twins c txn).delete_agrees twins row fun _ _ => trivial

/-! ### The end of a transaction -/

theorem dirtyPages_eq (txn : TxnId) : e₁.dirtyPages txn = e₂.dirtyPages txn := by
  apply PageId.sorted_eq_of_perm
  rw [List.perm_ext_iff_of_nodup (FinMap.nodup_keys _) (FinMap.nodup_keys _)]
  intro p
  have first := e₁.mem_dirtyPages_iff txn p
  have second := e₂.mem_dirtyPages_iff txn p
  rw [Engine.dirtyPages, mem_sorted_iff] at first second
  rw [first, second, twins.view?_eq]

theorem flush_agrees (p : PageId) :
    Agrees (Twins c) (flush p) (flush p) e₁ e₂ (Alike (Twins c)) := by
  refine .of_ensures (flush_ensures twins.left p) (flush_ensures twins.right p) ?_
  intro x t₁ y t₂ first second
  rw [twins.view?_eq] at first
  cases x with
  | error fault => exact first.elim
  | ok a =>
    cases y with
    | error fault => exact second.elim
    | ok b =>
      rcases first with ⟨rfl, clean⟩ | ⟨page, rfl, written⟩
      · rcases second with ⟨rfl, -⟩ | ⟨copy, rfl, written'⟩
        · exact ⟨rfl, twins⟩
        · exact absurd (clean copy written'.seen) written'.dirty
      · have seen := written.seen
        rw [twins.view?_eq] at seen
        rcases second with ⟨-, clean⟩ | ⟨copy, same, written'⟩
        · exact absurd (clean page seen) written.dirty
        · have seen' := written'.seen
          rw [same, seen] at seen'
          cases seen'
          obtain ⟨entry, f, found, file, surface⟩ := written.surface
          obtain ⟨entry', f', found', file', surface'⟩ := written'.surface
          rw [twins.to_sameFiles.catalog, found'] at found
          rw [twins.to_sameFiles.fileOf?_kept, file'] at file
          cases found
          cases file
          refine ⟨rfl, written.after, written'.after, ?_, written.to_sameTables.catalog.trans twins.catalog⟩
          rw [surface, surface', twins.surface]

theorem flushEach_agrees (pages : List PageId) :
    Agrees (Twins c) (flushEach pages) (flushEach pages) e₁ e₂ (Alike (Twins c)) := by
  induction pages generalizing e₁ e₂ with
  | nil => exact .pure ⟨rfl, twins⟩
  | cons p rest ih =>
    refine (twins.flush_agrees p).bind ?_
    intro _ t₁ _ t₂ done
    exact ih done.2

theorem discard_agrees (p : PageId) :
    Agrees (Twins c) (discard p) (discard p) e₁ e₂ (Alike (Twins c)) := by
  obtain ⟨coherent₁, surface₁⟩ := twins.left.coherent_dropped p
  obtain ⟨coherent₂, surface₂⟩ := twins.right.coherent_dropped p
  have surface : (e₁.dropped p).surface = (e₂.dropped p).surface := by
    rw [surface₁, surface₂, twins.surface, twins.to_sameFiles.stored?_kept]
  exact ⟨rfl, coherent₁, coherent₂, surface, twins.catalog⟩

theorem discardEach_agrees (pages : List PageId) :
    Agrees (Twins c) (discardEach pages) (discardEach pages) e₁ e₂ (Alike (Twins c)) := by
  induction pages generalizing e₁ e₂ with
  | nil => exact .pure ⟨rfl, twins⟩
  | cons p rest ih =>
    refine (twins.discard_agrees p).bind ?_
    intro _ t₁ _ t₂ done
    exact ih done.2

theorem twins_releaseAll (txn : TxnId) : Twins c (e₁.releaseAll txn) (e₂.releaseAll txn) := by
  have left : Swapped e₁ (e₁.releaseAll txn) := twins.left.swapped_same ⟨rfl, rfl, rfl, rfl⟩ rfl
  have right : Swapped e₂ (e₂.releaseAll txn) := twins.right.swapped_same ⟨rfl, rfl, rfl, rfl⟩ rfl
  refine twins.twins_of_swapped left right ?_
  show e₁.locks.releaseAll txn = e₂.locks.releaseAll txn
  rw [twins.locks_eq]

omit twins in
theorem ending_agrees {act : Action Unit} (agrees : Agrees (Twins c) act act e₁ e₂ (Alike (Twins c))) (txn : TxnId) :
    Agrees (Twins c) (ending txn act) (ending txn act) e₁ e₂ (Alike (Twins c)) := by
  have ended : ∀ e, outcome (Engine.ending txn act) e =
      ((outcome act e).1.map id, (outcome act e).2.releaseAll txn) := by
    intro e
    rw [outcome, outcome, Engine.ending]
    cases act e <;> rfl
  refine agrees.lift id (·.releaseAll txn) (·.releaseAll txn) (ended e₁) (ended e₂) ?_ ?_
  · intro t₁ t₂ twins
    exact twins.twins_releaseAll txn
  · intro _ t₁ _ t₂ done
    exact ⟨done.1, done.2.twins_releaseAll txn⟩

theorem commit_agrees (txn : TxnId) :
    Agrees (Twins c) (commit txn) (commit txn) e₁ e₂ (Alike (Twins c)) := by
  refine ending_agrees ?_ txn
  have counted : Agrees (Twins c) (flushPages txn) (flushPages txn) e₁ e₂ fun _ t₁ _ t₂ => Twins c t₁ t₂ := by
    refine .get_bind ?_
    rw [twins.dirtyPages_eq]
    refine (twins.flushEach_agrees _).bind ?_
    intro _ t₁ _ t₂ done
    exact .pure done.2
  refine counted.bind ?_
  intro _ t₁ _ t₂ done
  exact .pure ⟨rfl, done⟩

theorem abort_agrees (txn : TxnId) :
    Agrees (Twins c) (abort txn) (abort txn) e₁ e₂ (Alike (Twins c)) := by
  refine ending_agrees (.get_bind ?_) txn
  rw [twins.dirtyPages_eq]
  exact twins.discardEach_agrees _

end Twins

end RowStore.Engine
