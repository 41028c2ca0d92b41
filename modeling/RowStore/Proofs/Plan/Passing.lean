import Mathlib.Data.List.ReduceOption
import RowStore.Proofs.Plan.Telling
import RowStore.Proofs.Transparency
/-!
# What a source passes on

A source is known by what is true of every row that it gives, as long as something is kept up on the engine. The
rows of a table are those of the pages that its scan gets.
-/

namespace RowStore

open Engine

variable {σ τ α β : Type} {kept : Engine → Prop} {good : σ → Prop} {yields : α → Prop} {s : σ} {e : Engine}

/-- Whatever comes of the step, what is kept up on the engine is kept up, the state is good, and so is what the step
yields, if it yields anything. -/
def Sustained (kept : Engine → Prop) (good : σ → Prop) (yields : α → Prop) (answer : Except Fault α)
    (after : σ × Engine) : Prop :=
  good after.1 ∧ kept after.2 ∧ ∀ a, answer = .ok a → yields a

namespace Ensures

theorem sustained_bind {act : Step σ α} {next : α → Step σ β} {yields' : β → Prop}
    (first : Ensures act (s, e) (Sustained kept good yields))
    (later : ∀ a s' e', good s' → kept e' → yields a → Ensures (next a) (s', e') (Sustained kept good yields')) :
    Ensures (act >>= next) (s, e) (Sustained kept good yields') := by
  refine first.bind ?_ ?_
  · rintro a ⟨s', e'⟩ ⟨holds, keeps, given⟩
    exact later a s' e' holds keeps (given a rfl)
  · rintro fault after ⟨holds, keeps, -⟩
    exact ⟨holds, keeps, by simp⟩

theorem sustained_map {act : Step σ α} {f : α → β} {yields' : β → Prop}
    (first : Ensures act (s, e) (Sustained kept good yields)) (given : ∀ a, yields a → yields' (f a)) :
    Ensures (act >>= fun a => Pure.pure (f a)) (s, e) (Sustained kept good yields') :=
  first.sustained_bind fun a _ _ holds keeps yielded =>
    .pure ⟨holds, keeps, fun _ same => by cases same; exact given a yielded⟩

theorem sustained_within {goodPart : τ → Prop} {part : σ → τ} {replace : σ → τ → σ} {act : Step τ α}
    (ensured : Ensures act (part s, e) (Sustained kept goodPart yields))
    (whole : ∀ t, goodPart t → good (replace s t)) :
    Ensures (Step.within part replace act) (s, e) (Sustained kept good yields) :=
  ensured.within_step fun _ _ done => ⟨whole _ done.1, done.2⟩

end Ensures

/-- Every row that the source gives is a wanted one. -/
structure Source.Gives (source : Source) (kept : Engine → Prop) (good : source.State → Prop) (wanted : Row → Prop) :
    Prop where
  initial : good source.initial
  finish : ∀ s, good s → good (source.finish s)
  replay : ∀ again, source.replay = some again → ∀ s, good s → good (again s)
  start : ∀ s e, good s → kept e → Ensures source.start (s, e) (Sustained kept good fun _ => True)
  fetch : ∀ s e, good s → kept e →
    Ensures source.fetch (s, e) (Sustained kept good fun answer => ∀ row ∈ answer, wanted row)

def Reply.given : Reply → List Row
  | .row drawn => drawn.toList
  | .rows drawn _ => drawn.reduceOption
  | _ => []

/-! ### The rows of a table -/

/-- The scan that has been begun, if there is one, reads the table and holds rows that are wanted. -/
def Source.Reading (wanted : Row → Prop) (s : ScanOf) (state : Option FileScan) : Prop :=
  ∀ scan ∈ state, FileScan.Carries (fun row => wanted (row.under s.schema)) (.start s.entry.file s.table s.txn) scan

theorem Source.ofTable_gives {s : ScanOf} {wanted : Row → Prop}
    (each : ∀ e number, kept e → Ensures (getPage s.txn ⟨s.table, number⟩ .shared) e fun
      | .ok page, e' => kept e' ∧ ∀ row ∈ page.rows, wanted (row.under s.schema)
      | .error _, e' => kept e') : (ofTable s).Gives kept (Reading wanted s) wanted where
  initial _ among := absurd among (by simp [ofTable])
  finish _ _ _ among := absurd among (by simp [ofTable])
  replay again same := absurd same (by simp [ofTable])
  start state e _ keeps := by
    refine ⟨?_, keeps, fun _ _ => trivial⟩
    rintro scan ⟨⟩
    exact ⟨⟨rfl, rfl, rfl⟩, by simp [FileScan.start]⟩
  fetch state e holds keeps := by
    cases state with
    | none => exact ⟨holds, keeps, fun _ same => by cases same; simp⟩
    | some scan =>
      let fine := fun row : Row => wanted (row.under s.schema)
      have pages : ∀ e number, kept e → True → Ensures (getPage s.txn ⟨s.table, number⟩ .shared) e fun
          | .ok page, e' => kept e' ∧ ∀ row ∈ page.rows, fine row
          | .error _, e' => kept e' ∧ True := by
        intro e number keeps _
        refine (each e number keeps).mono ?_
        rintro (fault | page) e' done
        · exact ⟨done, trivial⟩
        · exact done
      have given := @FileScan.next_gives kept (fun _ _ => True) fine (.start s.entry.file s.table s.txn)
        (fun _ => True) (fun _ _ _ _ => trivial) pages e keeps scan (holds scan rfl)
      have next : Ensures FileScan.next (scan, e) (Sustained kept
          (FileScan.Carries fine (.start s.entry.file s.table s.txn)) fun answer => ∀ row ∈ answer, fine row) :=
        given.mono fun _ _ done =>
          ⟨done.1, done.2.1, fun _ same row among => done.2.2.1 row (same.trans (congrArg _ among))⟩
      have drawn : Ensures (Step.within (fun _ => scan) (fun _ scan => some scan) FileScan.next) (some scan, e)
          (Sustained kept (Reading wanted s) fun answer => ∀ row ∈ answer, fine row) :=
        next.sustained_within fun scan' holds' _ among => by cases among; exact holds'
      refine drawn.sustained_map fun answer rows => ?_
      cases answer with
      | none => simp
      | some row => simpa using rows

end RowStore
