import RowStore.Proofs.Agreement
import RowStore.Proofs.Engine.Rows
/-!
# Rows in two engines

A transaction inserts and deletes through few things: it has pages, gives locks back, makes files longer and marks
pages. Two engines that are alike to it in these are alike to it in rows. What it is to be alike is left open, and so
is what must hold of a page before it can be changed in both.
-/

namespace RowStore.Engine

theorem ofExcept_agrees {α : Type} {twin : Engine → Engine → Prop} {e₁ e₂ : Engine} (twins : twin e₁ e₂)
    (x : Except Fault α) :
    Agrees twin (ofExcept x) (ofExcept x) e₁ e₂ fun a t₁ b t₂ => a = b ∧ twin t₁ t₂ ∧ x = .ok a := by
  cases x with
  | ok a => exact ⟨rfl, twins, rfl⟩
  | error fault => exact .error_of_twins twins

/-- The page can be marked in both, and then they are alike again. -/
def Marks (twin : Engine → Engine → Prop) (txn : TxnId) (p : PageId) (e₁ e₂ : Engine) : Prop :=
  Agrees twin (markDirty txn (.current p)) (markDirty txn (.current p)) e₁ e₂ (Alike twin)

/-- The transaction, which uses these tables, finds the two engines alike. It may change a page that it holds. -/
structure Pairing (c : Catalog) (txn : TxnId) (mine : TableId → Prop) (twin : Engine → Engine → Prop)
    (held : Page → Engine → Engine → Prop) : Prop where
  catalog : ∀ {e₁ e₂}, twin e₁ e₂ → e₁.catalog = c ∧ e₂.catalog = c
  pagesOf : ∀ {e₁ e₂ table entry}, twin e₁ e₂ → mine table → c.find? table = some entry →
    e₁.pagesOf entry.file = e₂.pagesOf entry.file
  holds : ∀ {e₁ e₂ p}, twin e₁ e₂ → mine p.table → e₁.locks.holds txn p = e₂.locks.holds txn p
  getPage : ∀ {e₁ e₂ p}, twin e₁ e₂ → mine p.table → ∀ mode,
    Agrees twin (getPage txn p mode) (getPage txn p mode) e₁ e₂ fun a t₁ b t₂ =>
      a = b ∧ twin t₁ t₂ ∧ a.id = p ∧ (mode = .exclusive → held a t₁ t₂)
  unlockUnless : ∀ {e₁ e₂ p}, twin e₁ e₂ → mine p.table → ∀ held,
    Agrees twin (unlockUnless held txn p) (unlockUnless held txn p) e₁ e₂ (Alike twin)
  extendFile : ∀ {e₁ e₂ table entry}, twin e₁ e₂ → mine table → c.find? table = some entry →
    Agrees twin (extendFile entry.file table) (extendFile entry.file table) e₁ e₂ fun a t₁ b t₂ =>
      a = b ∧ twin t₁ t₂ ∧ mine a.table
  markDirty : ∀ {e₁ e₂ page slot content}, twin e₁ e₂ → held page e₁ e₂ → slot < page.slots.length →
    (∀ values, content = some values → Row.Fits values page.schema.types) →
    Marks twin txn page.id (e₁.keeping (page.putAt slot content)) (e₂.keeping (page.putAt slot content))

namespace Pairing

variable {c : Catalog} {txn : TxnId} {mine : TableId → Prop} {twin : Engine → Engine → Prop}
  {held : Page → Engine → Engine → Prop} (pairing : Pairing c txn mine twin held) {e₁ e₂ : Engine}

/-- Either they are alike, or a page is still to be marked. -/
def Placing (twin : Engine → Engine → Prop) (txn : TxnId) : Option PageId → Engine → Engine → Prop
  | none => twin
  | some p => Marks twin txn p

include pairing

theorem resolve_agrees (twins : twin e₁ e₂) (table : TableId) :
    Agrees twin (resolve table) (resolve table) e₁ e₂ fun a t₁ b t₂ =>
      a = b ∧ twin t₁ t₂ ∧ c.find? table = some a := by
  obtain ⟨left, right⟩ := pairing.catalog twins
  cases found : c.find? table with
  | none =>
    have unknown : ∀ e : Engine, e.catalog = c → Engine.resolve table e = .error (.unknownTable table) e := by
      intro e same
      rw [Engine.resolve, same, found]
    rw [Agrees, outcome, outcome, unknown e₁ left, unknown e₂ right]
    exact .error_of_twins twins
  | some entry =>
    have known : ∀ e : Engine, e.catalog = c → Engine.resolve table e = .ok entry e := by
      intro e same
      rw [Engine.resolve, same, found]
    exact .of_ok (known e₁ left) (known e₂ right) ⟨rfl, twins, rfl⟩

section Insert

variable (row : Row) (fits : Row.Fits row.values row.schema.types)

include fits

theorem insertOn_agrees (twins : twin e₁ e₂) {p : PageId} (own : mine p.table) :
    Agrees twin (insertOn txn p row) (insertOn txn p row) e₁ e₂
      fun a t₁ b t₂ => a = b ∧ Placing twin txn (a.map RowId.page) t₁ t₂ := by
  refine .get_bind ?_
  rw [pairing.holds twins own]
  refine (pairing.getPage twins own .exclusive).bind ?_
  rintro page s₁ _ s₂ ⟨rfl, twins', rfl, holds⟩
  by_cases full : page.freeSlots = 0
  · rw [if_pos full]
    refine (pairing.unlockUnless twins' own _).bind ?_
    intro _ t₁ _ t₂ done
    exact .pure ⟨rfl, done.2⟩
  · rw [if_neg full]
    have failing : ∀ fault, page.insert row = .error fault →
        Agrees twin (some <$> place page row) (some <$> place page row) s₁ s₂
          fun a t₁ b t₂ => a = b ∧ Placing twin txn (a.map RowId.page) t₁ t₂ := by
      intro fault failed
      have thrown : place page row = throw fault := by
        rw [place, failed]
      rw [thrown]
      exact .error_of_twins twins'
    rcases page.insert_cases row with ⟨-, failed⟩ | ⟨-, -, failed⟩ | ⟨slot, inside, types, -, -, done⟩
    · exact failing _ failed
    · exact failing _ failed
    · have placed : ∀ s : Engine, place page row s =
          .ok (page.locate slot) (s.keeping (page.putAt slot (some row.values))) := by
        intro s
        rw [place, done]
        rfl
      have fits' : ∀ values, some row.values = some values → Row.Fits values page.schema.types := by
        intro values same
        cases same
        rw [← of_decide_eq_true types]
        exact fits
      have both : Agrees twin (place page row) (place page row) s₁ s₂ fun a t₁ b t₂ =>
          a = b ∧ Marks twin txn a.page t₁ t₂ := by
        rw [Agrees, outcome, outcome, placed, placed]
        exact ⟨rfl, pairing.markDirty twins' (holds rfl) inside fits'⟩
      refine both.map ?_
      rintro location t₁ _ t₂ ⟨rfl, marks⟩
      exact ⟨rfl, marks⟩

theorem insertOnFirst_agrees (twins : twin e₁ e₂) (pages : List PageId) (own : ∀ p ∈ pages, mine p.table) :
    Agrees twin (insertOnFirst txn row pages) (insertOnFirst txn row pages) e₁ e₂
      fun a t₁ b t₂ => a = b ∧ Placing twin txn (a.map RowId.page) t₁ t₂ := by
  induction pages generalizing e₁ e₂ with
  | nil => exact .pure ⟨rfl, twins⟩
  | cons p rest ih =>
    refine (pairing.insertOn_agrees row fits twins (own p List.mem_cons_self)).bind ?_
    rintro answer t₁ _ t₂ ⟨rfl, placing⟩
    cases answer with
    | some location => exact .pure ⟨rfl, placing⟩
    | none => exact ih placing fun q later => own q (List.mem_cons_of_mem _ later)

variable {table : TableId} (own : mine table)

include own

/-- How often it may be tried makes no difference, unless it is tried too often. -/
theorem insertOnNew_agrees (twins : twin e₁ e₂) {entry : TableEntry} (found : c.find? table = some entry)
    (tries₁ tries₂ : Nat) :
    Agrees twin (insertOnNew txn entry.file table row tries₁) (insertOnNew txn entry.file table row tries₂) e₁ e₂
      fun a t₁ b t₂ => a = b ∧ Marks twin txn a.page t₁ t₂ := by
  induction tries₁ generalizing tries₂ e₁ e₂ with
  | zero => exact .full_left
  | succ tries₁ ih =>
    cases tries₂ with
    | zero => exact .full_right
    | succ tries₂ =>
      refine (pairing.extendFile twins own found).bind ?_
      rintro p s₁ _ s₂ ⟨rfl, twins', onTable⟩
      refine (pairing.insertOn_agrees row fits twins' onTable).bind ?_
      rintro answer t₁ _ t₂ ⟨rfl, placing⟩
      cases answer with
      | some location => exact .pure ⟨rfl, placing⟩
      | none => exact ih placing tries₂

theorem insertInFile_agrees (twins : twin e₁ e₂) {entry : TableEntry} (found : c.find? table = some entry) :
    Agrees twin (insertInFile txn entry.file table row) (insertInFile txn entry.file table row) e₁ e₂
      fun a t₁ b t₂ => a = b ∧ Marks twin txn a.page t₁ t₂ := by
  refine .get_bind ?_
  rw [pairing.pagesOf twins own found]
  have onTable : ∀ p ∈ (List.range (e₂.pagesOf entry.file)).map fun number => PageId.mk table number,
      mine p.table := by
    intro p among
    obtain ⟨number, -, rfl⟩ := List.mem_map.mp among
    exact own
  refine (pairing.insertOnFirst_agrees row fits twins _ onTable).bind ?_
  rintro answer t₁ _ t₂ ⟨rfl, placing⟩
  cases answer with
  | some location => exact .pure ⟨rfl, placing⟩
  | none => exact .get_bind (pairing.insertOnNew_agrees row fits own placing found _ _)

theorem insert_agrees (twins : twin e₁ e₂) :
    Agrees twin (insert txn table row) (insert txn table row) e₁ e₂ (Alike twin) := by
  refine (pairing.resolve_agrees twins table).bind ?_
  rintro entry s₁ _ s₂ ⟨rfl, twins', found⟩
  rw [checkSchema]
  by_cases types : row.schema.sameTypes entry.schema
  · rw [if_pos types]
    refine (pairing.insertInFile_agrees row fits own twins' found).bind ?_
    rintro location t₁ _ t₂ ⟨rfl, marks⟩
    refine Agrees.bind marks ?_
    intro _ u₁ _ u₂ marked
    exact .pure ⟨rfl, marked.2⟩
  · rw [if_neg types]
    exact .error_of_twins twins'

end Insert

theorem deleteInFile_agrees (twins : twin e₁ e₂) {row : RowId} (own : mine row.page.table) {entry : TableEntry}
    (found : c.find? row.page.table = some entry) :
    Agrees twin (deleteInFile txn entry.file row.page.table (some row))
      (deleteInFile txn entry.file row.page.table (some row)) e₁ e₂
      fun a t₁ b t₂ => a = b ∧ Marks twin txn a t₁ t₂ := by
  refine .get_bind ?_
  rw [pairing.pagesOf twins own found]
  by_cases outside : row.page.table ≠ row.page.table ∨ e₂.pagesOf entry.file ≤ row.page.number
  · rw [if_pos outside]
    exact .throw twins
  · rw [if_neg outside]
    refine (pairing.getPage twins own .exclusive).bind ?_
    rintro page t₁ _ t₂ ⟨rfl, twins', id, holds⟩
    rcases page.delete_cases row with ⟨-, -, inside, done⟩ | ⟨-, failed⟩
    · rw [done]
      have empties : ∀ values, (none : Option (List Value)) = some values →
          Row.Fits values page.schema.types := fun _ filled => absurd filled (by simp)
      have marks := pairing.markDirty twins' (holds rfl) inside empties
      rw [id] at marks
      exact ⟨rfl, marks⟩
    · rw [failed]
      exact .throw twins'

theorem delete_agrees (twins : twin e₁ e₂) (row : Option RowId)
    (own : ∀ location, row = some location → mine location.page.table) :
    Agrees twin (delete txn row) (delete txn row) e₁ e₂ (Alike twin) := by
  cases row with
  | none => exact .throw twins
  | some row =>
    have own := own row rfl
    refine (pairing.resolve_agrees twins row.page.table).bind ?_
    rintro entry s₁ _ s₂ ⟨rfl, twins', found⟩
    refine (pairing.deleteInFile_agrees twins' own found).bind ?_
    rintro p t₁ _ t₂ ⟨rfl, marks⟩
    refine Agrees.bind marks ?_
    intro _ u₁ _ u₂ marked
    exact .pure ⟨rfl, marked.2⟩

end Pairing

end RowStore.Engine
