import RowStore.Plan.Cursor
import RowStore.Proofs.Engine.Twins
/-!
# Steps beside twin engines

A step of a scan or of a cursor has a state of its own. Taken from the same state beside engines that
are twins, it comes to the same and leaves the same state. How many turns a cursor may take makes no
difference, unless it runs out of them.
-/

namespace RowStore

open Engine

/-- The row has one value that may be stored there for each of the columns. -/
structure Row.Conforms (types : List ColType) (row : Row) : Prop where
  schema : row.schema.types = types
  fits : Row.Fits row.values types

theorem Row.Conforms.fits_own_schema {types : List ColType} {row : Row} (conforms : row.Conforms types) :
    Row.Fits row.values row.schema.types := by
  rw [conforms.schema]
  exact conforms.fits

/-- The row has one value that may be stored there for each of the columns of the table. -/
def Row.Suits (c : Catalog) (table : TableId) (row : Row) : Prop :=
  ∀ entry, c.find? table = some entry → Row.Fits row.values entry.schema.types

/-- The same state beside engines that are twins, and the state is as it should be. -/
structure Paired {σ : Type} (c : Catalog) (good : σ → Prop) (s₁ s₂ : σ × Engine) : Prop where
  same : s₁.1 = s₂.1
  good : good s₁.1
  twins : Twins c s₁.2 s₂.2

/-- The answer is the same and as it should be, and so is what is left. -/
structure Given {σ α : Type} (c : Catalog) (good : σ → Prop) (yields : α → Prop) (a : α) (s₁ : σ × Engine)
    (b : α) (s₂ : σ × Engine) : Prop where
  same : a = b
  left : Paired c good s₁ s₂
  yields : yields a

/-- The fault that has cut an answer short is the lack of room. -/
abbrev Short {α : Type} (answer : List α × Option Fault) : Prop := answer.2 = some .poolFull

namespace Agrees

variable {σ τ α β : Type} {c : Catalog} {good : σ → Prop} {yields : α → Prop} {s : σ} {e₁ e₂ : Engine}
  {act₁ act₂ : Action α}

theorem engine_step {post : α → Engine → α → Engine → Prop}
    (agrees : Agrees (Twins c) act₁ act₂ e₁ e₂ post) (holds : good s)
    (later : ∀ a t₁ b t₂, post a t₁ b t₂ → a = b ∧ Twins c t₁ t₂ ∧ yields a) :
    Agrees (Paired c good) (Step.engine act₁) (Step.engine act₂) (s, e₁) (s, e₂)
      fun a t₁ b t₂ => Given c good yields a t₁ b t₂ ∧ t₁.1 = s := by
  have beside : ∀ (act : Action α) e,
      outcome (Step.engine act) (s, e) = ((outcome act e).1.map id, s, (outcome act e).2) := by
    intro act e
    rw [outcome, outcome, Step.engine]
    cases act e <;> rfl
  refine agrees.lift id (s, ·) (s, ·) (beside act₁ e₁) (beside act₂ e₂) ?_ ?_
  · intro t₁ t₂ twins
    exact ⟨rfl, holds, twins⟩
  · intro a t₁ b t₂ done
    obtain ⟨same, twins, yielded⟩ := later a t₁ b t₂ done
    exact ⟨⟨same, ⟨rfl, holds, twins⟩, yielded⟩, rfl⟩

theorem within_step {goodPart : τ → Prop} {part : σ → τ} {replace : σ → τ → σ} {act₁ act₂ : Step τ α}
    (agrees : Agrees (Paired c goodPart) act₁ act₂ (part s, e₁) (part s, e₂) (Given c goodPart yields))
    (back : ∀ t, goodPart t → good (replace s t)) :
    Agrees (Paired c good) (Step.within part replace act₁) (Step.within part replace act₂) (s, e₁) (s, e₂)
      (Given c good yields) := by
  have inside : ∀ (act : Step τ α) e, outcome (Step.within part replace act) (s, e) =
      ((outcome act (part s, e)).1.map id, replace s (outcome act (part s, e)).2.1,
        (outcome act (part s, e)).2.2) := by
    intro act e
    rw [outcome, outcome, Step.within]
    cases act (part s, e) <;> rfl
  have paired : ∀ t₁ t₂, Paired c goodPart t₁ t₂ → Paired c good (replace s t₁.1, t₁.2) (replace s t₂.1, t₂.2) := by
    intro t₁ t₂ left
    exact ⟨congrArg (replace s) left.same, back _ left.good, left.twins⟩
  let put (t : τ × Engine) : σ × Engine := (replace s t.1, t.2)
  refine agrees.lift id put put (inside act₁ e₁) (inside act₂ e₂) paired ?_
  intro a t₁ b t₂ given
  exact ⟨given.same, paired t₁ t₂ given.left, given.yields⟩

theorem bind_paired {act₁ act₂ : Step σ α} {next₁ next₂ : α → Step σ β} {goal : β → σ × Engine → β → σ × Engine → Prop}
    {s₁ s₂ : σ × Engine} (first : Agrees (Paired c good) act₁ act₂ s₁ s₂ (Given c good yields))
    (later : ∀ a s e₁ e₂, good s → Twins c e₁ e₂ → yields a →
      Agrees (Paired c good) (next₁ a) (next₂ a) (s, e₁) (s, e₂) goal) :
    Agrees (Paired c good) (act₁ >>= next₁) (act₂ >>= next₂) s₁ s₂ goal := by
  refine first.bind ?_
  intro a t₁ b t₂ given
  obtain ⟨rfl, ⟨same, holds, twins⟩, yielded⟩ := given
  obtain ⟨s, e₁⟩ := t₁
  obtain ⟨s', e₂⟩ := t₂
  obtain rfl : s = s' := same
  exact later a s e₁ e₂ holds twins yielded

theorem here_bind {twin : σ × Engine → σ × Engine → Prop} {next₁ next₂ : σ → Step σ β}
    {goal : β → σ × Engine → β → σ × Engine → Prop}
    (later : Agrees twin (next₁ s) (next₂ s) (s, e₁) (s, e₂) goal) :
    Agrees twin (Step.here >>= next₁) (Step.here >>= next₂) (s, e₁) (s, e₂) goal := later

theorem update_bind {twin : σ × Engine → σ × Engine → Prop} {f : σ → σ} {next₁ next₂ : Unit → Step σ β}
    {goal : β → σ × Engine → β → σ × Engine → Prop}
    (later : Agrees twin (next₁ ()) (next₂ ()) (f s, e₁) (f s, e₂) goal) :
    Agrees twin (Step.update f >>= next₁) (Step.update f >>= next₂) (s, e₁) (s, e₂) goal := later

theorem theEngine_bind {twin : σ × Engine → σ × Engine → Prop} {next₁ next₂ : Engine → Step σ β}
    {goal : β → σ × Engine → β → σ × Engine → Prop}
    (later : Agrees twin (next₁ e₁) (next₂ e₂) (s, e₁) (s, e₂) goal) :
    Agrees twin (Step.theEngine >>= next₁) (Step.theEngine >>= next₂) (s, e₁) (s, e₂) goal := later

end Agrees

/-! ### Scans -/

namespace FileScan

/-- The same scan of the same file beside two engines that are alike, and the rows that it holds are as they should
be. -/
structure Abreast (s : FileScan) (yields : Row → Prop) (twin : Engine → Engine → Prop) (t₁ t₂ : FileScan × Engine) :
    Prop where
  same : t₁.1 = t₂.1
  alike : Alike s t₁.1
  pending : ∀ row ∈ t₁.1.pending, yields row
  twins : twin t₁.2 t₂.2

/-- What ends the rows early is part of the answer. -/
theorem take_succeeds (n : Nat) (s : FileScan × Engine) :
    Ensures (take n) s fun answer _ => ∃ a, answer = .ok a := by
  induction n generalizing s with
  | zero => exact .pure ⟨_, rfl⟩
  | succ n ih =>
    refine (Ensures.attempt_succeeds next s).bind ?_ fun _ _ failed => absurd failed (by simp)
    intro x s' _
    match x with
    | .error fault => exact .pure ⟨_, rfl⟩
    | .ok none => exact .pure ⟨_, rfl⟩
    | .ok (some row) =>
      refine (ih s').bind ?_ fun _ _ failed => absurd failed (by simp)
      intro answer _ _
      exact .pure ⟨_, rfl⟩

section Abreast

/-- The pages of the file are had in the same way in engines that are alike. -/
structure Paged (s : FileScan) (yields : Row → Prop) (twin : Engine → Engine → Prop) : Prop where
  pages : ∀ {e₁ e₂}, twin e₁ e₂ → ∀ number, Agrees twin (getPage s.txn ⟨s.table, number⟩ .shared)
    (getPage s.txn ⟨s.table, number⟩ .shared) e₁ e₂ fun a t₁ b t₂ => a = b ∧ twin t₁ t₂ ∧ ∀ row ∈ a.rows, yields row
  lengths : ∀ {e₁ e₂}, twin e₁ e₂ → e₁.pagesOf s.file = e₂.pagesOf s.file

variable {s : FileScan} {yields : Row → Prop} {twin : Engine → Engine → Prop} (paged : s.Paged yields twin)
  {t₁ t₂ : FileScan × Engine} (abreast : Abreast s yields twin t₁ t₂)

include paged abreast

theorem advance_abreast (numbers : List Nat) :
    Agrees (Abreast s yields twin) (advance numbers) (advance numbers) t₁ t₂ fun a u₁ b u₂ =>
      a = b ∧ Abreast s yields twin u₁ u₂ ∧ ∀ row, a = some row → yields row := by
  induction numbers generalizing t₁ t₂ with
  | nil => exact .pure ⟨rfl, abreast, by simp⟩
  | cons number rest ih =>
    obtain ⟨s₁, e₁⟩ := t₁
    obtain ⟨s₂, e₂⟩ := t₂
    obtain ⟨same, alike, pending, twins⟩ := abreast
    obtain rfl : s₁ = s₂ := same
    have gotten : Agrees (Abreast s yields twin) (Step.engine (getPage s₁.txn ⟨s₁.table, number⟩ .shared))
        (Step.engine (getPage s₁.txn ⟨s₁.table, number⟩ .shared)) (s₁, e₁) (s₁, e₂) fun a u₁ b u₂ =>
          a = b ∧ Abreast s yields twin u₁ u₂ ∧ u₁.1 = s₁ ∧ ∀ row ∈ a.rows, yields row := by
      have beside : ∀ e, outcome (Step.engine (getPage s₁.txn ⟨s₁.table, number⟩ .shared)) (s₁, e) =
          ((outcome (getPage s.txn ⟨s.table, number⟩ .shared) e).1.map id, s₁,
            (outcome (getPage s.txn ⟨s.table, number⟩ .shared) e).2) := by
        intro e
        rw [← alike.txn, ← alike.table, outcome, outcome, Step.engine]
        cases getPage s₁.txn ⟨s₁.table, number⟩ .shared e <;> rfl
      have after : ∀ f₁ f₂, twin f₁ f₂ → Abreast s yields twin (s₁, f₁) (s₁, f₂) :=
        fun f₁ f₂ twins => ⟨rfl, alike, pending, twins⟩
      refine (paged.pages twins number).lift id (Prod.mk s₁) (Prod.mk s₁) (beside e₁) (beside e₂) after ?_
      rintro page f₁ _ f₂ ⟨rfl, twins', fits⟩
      exact ⟨rfl, after f₁ f₂ twins', rfl, fits⟩
    refine .congr (advance_cons ..) (advance_cons ..) (gotten.bind ?_)
    rintro page ⟨s₁', f₁⟩ _ ⟨s₂', f₂⟩ ⟨rfl, ⟨same, -, -, twins'⟩, kept, fits⟩
    obtain rfl : s₁' = s₂' := same
    obtain rfl : s₁' = s₁ := kept
    cases rows : page.rows with
    | nil => exact ih ⟨rfl, ⟨alike.file, alike.table, alike.txn⟩, pending, twins'⟩
    | cons row more =>
      rw [rows] at fits
      refine ⟨rfl, ⟨rfl, ⟨alike.file, alike.table, alike.txn⟩, ?_, twins'⟩, ?_⟩
      · exact fun other later => fits other (List.mem_cons_of_mem _ later)
      · rintro given ⟨⟩
        exact fits row List.mem_cons_self

theorem next_abreast : Agrees (Abreast s yields twin) next next t₁ t₂ fun a u₁ b u₂ =>
    a = b ∧ Abreast s yields twin u₁ u₂ ∧ ∀ row, a = some row → yields row := by
  obtain ⟨s₁, e₁⟩ := t₁
  obtain ⟨s₂, e₂⟩ := t₂
  obtain ⟨same, alike, pending, twins⟩ := abreast
  obtain rfl : s₁ = s₂ := same
  cases held : s₁.pending with
  | nil =>
    have pages : s₁.ahead e₁ = s₁.ahead e₂ := by
      rw [ahead, ahead, alike.file, paged.lengths twins]
    refine .congr (next_of_rowless held) (next_of_rowless held) ?_
    have abreast : Abreast s yields twin (s₁, e₁) (s₁, e₂) := ⟨rfl, alike, pending, twins⟩
    rw [pages]
    exact advance_abreast paged abreast _
  | cons row rows =>
    rw [held] at pending
    rw [Agrees, outcome, outcome, next_of_pending held, next_of_pending held]
    refine ⟨rfl, ⟨rfl, ⟨alike.file, alike.table, alike.txn⟩, ?_, twins⟩, ?_⟩
    · exact fun other later => pending other (List.mem_cons_of_mem _ later)
    · rintro given ⟨⟩
      exact pending row List.mem_cons_self

theorem take_abreast (n : Nat) :
    Agrees (Abreast s yields twin) (take n) (take n) t₁ t₂ (Partly (Abreast s yields twin) Short) := by
  induction n generalizing t₁ t₂ with
  | zero => exact .pure (.of_twins abreast)
  | succ n ih =>
    refine (next_abreast paged abreast).attempt_bind ?_ ?_ ?_ ?_
    case refine_1 =>
      intro x t
      apply Ensures.exists_ok
      match x with
      | .error fault => exact .pure ⟨_, rfl⟩
      | .ok none => exact .pure ⟨_, rfl⟩
      | .ok (some row) =>
        refine (take_succeeds n t).bind ?_ fun _ _ failed => absurd failed (by simp)
        intro answer _ _
        exact .pure ⟨_, rfl⟩
    case refine_2 =>
      intro t b t' done
      cases done
      rfl
    case refine_3 =>
      intro fault u₁ u₂ left
      exact .pure (.of_twins left)
    case refine_4 =>
      rintro a u₁ b u₂ ⟨rfl, left, -⟩
      cases a with
      | none => exact .pure (.of_twins left)
      | some row =>
        refine (ih left).bind ?_
        intro a v₁ b v₂ taken
        exact .pure (taken.map (fun answer => (some row :: answer.1, answer.2)) (fun _ short => short) id)

end Abreast

/-! ### Scans beside twin engines -/

/-- The scan is one of the table, and the rows that it holds are as they should be. -/
structure Sound (table : TableId) (yields : Row → Prop) (s : FileScan) : Prop where
  own : s.table = table
  pending : ∀ row ∈ s.pending, yields row

def Gives (c : Catalog) (table : TableId) (yields : Row → Prop) : Prop :=
  ∀ (e : Engine) (p : PageId) (page : Page), e.Coherent → e.catalog = c → p.table = table →
    e.view? p = some page → ∀ row ∈ page.rows, yields row

theorem sound_start (table : TableId) (yields : Row → Prop) (file : FileNo) (txn : TxnId) :
    Sound table yields (start file table txn) := ⟨rfl, fun _ among => absurd among (by simp [start])⟩

theorem gives_suiting (c : Catalog) (table : TableId) : Gives c table (Row.Suits c table) := by
  intro e p page coherent registered own seen row among entry found
  subst own registered
  obtain ⟨f, file, -, schema⟩ := coherent.opened found
  obtain ⟨g, same, -, of⟩ := coherent.of_of_view? seen
  rw [file] at same
  cases same
  rw [← schema, ← of.schema]
  exact of.sound.fits_of_mem_rows among

variable {c : Catalog} {table : TableId} {yields : Row → Prop} {e₁ e₂ : Engine} (gives : Gives c table yields)
  (twins : Twins c e₁ e₂) (s : FileScan) (sound : s.Sound table yields)

include sound

include gives in
theorem paged_twins : s.Paged yields (Twins c) where
  pages twins number := (twins.getPage_agrees s.txn ⟨s.table, number⟩ .shared).mono
    fun page _ _ _ ⟨same, twins', seen, _⟩ =>
      ⟨same, twins', gives _ _ page twins.left twins.catalog sound.own seen⟩
  lengths twins := (twins.to_sameFiles.pagesOf_eq s.file)

theorem Abreast.to_paired {t₁ t₂ : FileScan × Engine} (abreast : Abreast s yields (Twins c) t₁ t₂) :
    Paired c (Sound table yields) t₁ t₂ :=
  ⟨abreast.same, ⟨abreast.alike.table.trans sound.own, abreast.pending⟩, abreast.twins⟩

include twins

theorem abreast_twins : Abreast s yields (Twins c) (s, e₁) (s, e₂) :=
  ⟨rfl, ⟨rfl, rfl, rfl⟩, sound.pending, twins⟩

include gives in
theorem next_agrees :
    Agrees (Paired c (Sound table yields)) next next (s, e₁) (s, e₂)
      (Given c (Sound table yields) (fun answer => ∀ row, answer = some row → yields row)) := by
  refine (next_abreast (paged_twins gives s sound) (abreast_twins twins s sound)).mono_twin ?_ ?_
  · exact fun _ _ abreast => abreast.to_paired s sound
  · exact fun _ _ _ _ ⟨same, abreast, fits⟩ => ⟨same, abreast.to_paired s sound, fits⟩

include gives in
theorem take_agrees (n : Nat) :
    Agrees (Paired c (Sound table yields)) (take n) (take n) (s, e₁) (s, e₂)
      (Partly (Paired c (Sound table yields)) Short) := by
  refine (take_abreast (paged_twins gives s sound) (abreast_twins twins s sound) n).mono_twin ?_ ?_
  · exact fun _ _ abreast => abreast.to_paired s sound
  · exact fun _ _ _ _ taken => taken.map id (fun _ short => short) fun abreast => abreast.to_paired s sound

end FileScan

end RowStore
