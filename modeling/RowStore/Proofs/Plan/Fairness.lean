import RowStore.Plan.Run
import RowStore.Proofs.Engine.Growth
import RowStore.Proofs.Plan.Pairs
/-!
# Steps that do not run out of turns

A step of a plan goes on between two ends of transactions, so no file grows past a bound while it
lasts. A step is fair when it keeps to the bound and when what it reports as a lack of room in memory
is one: it never just runs out of turns.
-/

namespace RowStore

open Engine

namespace Engine

/-- How many pages the table has and could have if there was nothing in memory but more of them. -/
def room (e : Engine) (table : TableId) : Nat := e.pagesIn table + e.settings.poolPages

theorem reach_le_room (e : Engine) (table : TableId) : e.reach table ≤ e.room table :=
  Nat.add_le_add_left (Nat.sub_le _ _) _

/-- The engine while a step lasts: no file can come to have more pages than the bound says. -/
structure Under (c : Catalog) (settings : Settings) (bound : TableId → Nat) (e : Engine) : Prop where
  ready : Ready c settings e
  reach : ∀ table, e.reach table ≤ bound table
  room : ∀ table, bound table ≤ e.room table

variable {c : Catalog} {settings : Settings} {bound : TableId → Nat} {e e' : Engine}

theorem room_mono (left : Ready c settings e) (right : Ready c settings e')
    (pages : ∀ table, e.pagesIn table ≤ e'.pagesIn table) (table : TableId) : e.room table ≤ e'.room table := by
  rw [Engine.room, Engine.room, left.settings, right.settings]
  exact Nat.add_le_add_right (pages table) _

theorem Under.under_of_onward (under : Under c settings bound e) (onward : Onward c settings e e') :
    Under c settings bound e' where
  ready := onward.ready
  reach table := Nat.le_trans (onward.reach table) (under.reach table)
  room table := Nat.le_trans (under.room table) (room_mono under.ready onward.ready onward.pages table)

theorem Ready.under_room (ready : Ready c settings e) : Under c settings e.room e :=
  ⟨ready, e.reach_le_room, fun _ => Nat.le_refl _⟩

end Engine

variable {σ τ α β : Type} {c : Catalog} {settings : Settings} {bound : TableId → Nat} {good : σ → Prop}
  {yields : α → σ → Prop} {s : σ} {e : Engine}

/-- The engine after a step that was cut short, for lack of room in memory or not. -/
structure Halted (c : Catalog) (settings : Settings) (bound : TableId → Nat) (full : Prop) (e : Engine) : Prop where
  ready : Ready c settings e
  room : ∀ table, bound table ≤ e.room table
  stuck : full → e.Stuck

/-- What a step comes to that keeps to the bound and does not run out of turns. -/
def Fair (c : Catalog) (settings : Settings) (bound : TableId → Nat) (good : σ → Prop) (yields : α → σ → Prop) :
    Except Fault α → σ × Engine → Prop
  | .ok a, (s, e) => good s ∧ Under c settings bound e ∧ yields a s
  | .error fault, (s, e) => good s ∧ Halted c settings bound (fault = .poolFull) e

theorem Engine.Under.halted_of_not_full (under : Under c settings bound e) {full : Prop} (other : ¬full) :
    Halted c settings bound full e := ⟨under.ready, under.room, fun full => absurd full other⟩

namespace Ensures

theorem fair_engine {act : Action α} {yields : α → Prop} (under : Under c settings bound e)
    (honest : Ensures act e (Honest c settings e yields)) (holds : good s) :
    Ensures (Step.engine act) (s, e) (Fair c settings bound good fun a s' => s' = s ∧ yields a) := by
  refine honest.engine_step.mono ?_
  intro answer left done
  obtain ⟨s', e'⟩ := left
  obtain ⟨rfl, done⟩ := done
  cases answer with
  | ok a => exact ⟨holds, under.under_of_onward done.1, rfl, done.2⟩
  | error fault =>
    refine ⟨holds, done.ready, ?_, done.stuck⟩
    intro table
    exact Nat.le_trans (under.room table) (room_mono under.ready done.ready done.pages table)

theorem fair_within {goodPart : τ → Prop} {part : σ → τ} {replace : σ → τ → σ} {act : Step τ α}
    {yieldsPart : α → τ → Prop} (ensured : Ensures act (part s, e) (Fair c settings bound goodPart yieldsPart))
    (back : ∀ t, goodPart t → good (replace s t)) (given : ∀ a t, yieldsPart a t → yields a (replace s t)) :
    Ensures (Step.within part replace act) (s, e) (Fair c settings bound good yields) := by
  refine ensured.within_step ?_
  rintro (fault | a) after done
  · exact ⟨back _ done.1, done.2⟩
  · exact ⟨back _ done.1, done.2.1, given _ _ done.2.2⟩

theorem fair_bind {act : Step σ α} {next : α → Step σ β} {goal : β → σ → Prop}
    (first : Ensures act (s, e) (Fair c settings bound good yields))
    (later : ∀ a s' e', good s' → Under c settings bound e' → yields a s' →
      Ensures (next a) (s', e') (Fair c settings bound good goal)) :
    Ensures (act >>= next) (s, e) (Fair c settings bound good goal) :=
  first.bind (fun a left done => later a left.1 left.2 done.1 done.2.1 done.2.2) fun _ _ failed => failed

theorem fair_mono {act : Step σ α} {yields' : α → σ → Prop}
    (ensured : Ensures act (s, e) (Fair c settings bound good yields)) (weaker : ∀ a s', yields a s' → yields' a s') :
    Ensures act (s, e) (Fair c settings bound good yields') := by
  refine ensured.mono ?_
  intro answer left done
  cases answer with
  | ok a => exact ⟨done.1, done.2.1, weaker _ _ done.2.2⟩
  | error fault => exact done

theorem update_bind {f : σ → σ} {next : Unit → Step σ β} {goal : Except Fault β → σ × Engine → Prop}
    (later : Ensures (next ()) (f s, e) goal) : Ensures (Step.update f >>= next) (s, e) goal := later

theorem here_bind {next : σ → Step σ β} {goal : Except Fault β → σ × Engine → Prop}
    (later : Ensures (next s) (s, e) goal) : Ensures (Step.here >>= next) (s, e) goal := later

theorem theEngine_bind {next : Engine → Step σ β} {goal : Except Fault β → σ × Engine → Prop}
    (later : Ensures (next e) (s, e) goal) : Ensures (Step.theEngine >>= next) (s, e) goal := later

end Ensures

/-- One for a row, none for the end. -/
def taken (answer : Option α) : Nat := if answer.isSome then 1 else 0

@[simp] theorem taken_none : taken (none : Option α) = 0 := rfl

@[simp] theorem taken_some (a : α) : taken (some a) = 1 := rfl

/-! ### Scans -/

/-- No page of the size has more slots. -/
def slotLimit (settings : Settings) : Nat := 8 * settings.pageSize

theorem Page.length_rows_le (page : Page) : page.rows.length ≤ page.slots.length := by
  rw [rows_eq]
  exact Nat.le_trans (List.length_filterMap_le _ _) (Nat.le_of_eq List.length_range)

theorem Engine.Coherent.length_rows_le (coherent : e.Coherent) {p : PageId} {page : Page}
    (seen : e.view? p = some page) : page.rows.length ≤ slotLimit e.settings := by
  obtain ⟨f, file, -, of⟩ := coherent.of_of_view? seen
  obtain ⟨size, -, -⟩ := coherent.sized file
  have slots := of.sound.slots
  rw [of.size, size] at slots
  have rows := page.length_rows_le
  have fewer : Page.capacity e.settings.pageSize page.schema ≤ e.settings.pageSize * 8 := Nat.div_le_self _ _
  rw [slotLimit]
  omega

theorem Engine.Ready.length_rows_le (ready : Ready c settings e) {p : PageId} {page : Page}
    (seen : e.view? p = some page) : page.rows.length ≤ slotLimit settings := by
  rw [← ready.settings]
  exact ready.coherent.length_rows_le seen

theorem Engine.Ready.pagesOf_eq_pagesIn (ready : Ready c settings e) {table : TableId} {entry : TableEntry}
    (found : c.find? table = some entry) : e.pagesOf entry.file = e.pagesIn table := by
  rw [← ready.catalog] at found
  exact ready.coherent.pagesOf_eq_pagesIn found

namespace FileScan

/-- How many rows the scan can still give, were the table to grow to the bound. -/
def left (settings : Settings) (bound : Nat) (s : FileScan) : Nat :=
  s.pending.length + (bound - s.nextPage) * slotLimit settings

/-- The scan is one of the table, and the rows that it holds are those of one page at most. -/
structure Brief (settings : Settings) (of : ScanOf) (yields : Row → Prop) (s : FileScan) : Prop where
  sound : s.Sound of.table yields
  file : s.file = of.entry.file
  pending : s.pending.length ≤ slotLimit settings

section

variable {of : ScanOf} {yields : Row → Prop} (gives : Gives c of.table yields)

include gives

theorem advance_fair (pages : Nat) (s : FileScan) (brief : s.Brief settings of yields) (rowless : s.pending = [])
    (within : pages ≤ bound of.table - s.nextPage) {e : Engine} (under : Under c settings bound e) :
    Ensures (advance (List.range' s.nextPage pages)) (s, e)
      (Fair c settings bound (Brief settings of yields) fun answer s' => (∀ row, answer = some row → yields row) ∧
        s'.left settings (bound of.table) + taken answer ≤ s.left settings (bound of.table)) := by
  induction pages generalizing s e with
  | zero => exact ⟨brief, under, fun _ same => absurd same (by simp), Nat.le_refl _⟩
  | succ pages ih =>
    have gotten := Ensures.fair_engine under (getPage_honest under.ready s.txn ⟨s.table, s.nextPage⟩ .shared) brief
    refine .congr (advance_cons ..) (gotten.fair_bind ?_)
    intro page s' e' _ under' came
    obtain ⟨rfl, seen⟩ := came
    have limit := under.ready.length_rows_le seen
    have fits := gives e _ page under.ready.coherent under.ready.catalog brief.sound.own seen
    -- the page is one of those that the bound allows for, with as many rows as a page may have
    have spent : (bound of.table - (s'.nextPage + 1)) * slotLimit settings + slotLimit settings =
        (bound of.table - s'.nextPage) * slotLimit settings := by
      rw [← Nat.succ_mul]
      congr 1
      omega
    cases rows : page.rows with
    | nil =>
      refine .update_bind ?_
      have brief' : Brief settings of yields { s' with nextPage := s'.nextPage + 1 } :=
        ⟨⟨brief.sound.own, brief.sound.pending⟩, brief.file, brief.pending⟩
      apply (ih { s' with nextPage := s'.nextPage + 1 } brief' rowless (by simp only; omega) under').fair_mono
      intro answer after given
      refine ⟨given.1, Nat.le_trans given.2 ?_⟩
      rw [left, left]
      simp only
      omega
    | cons row rest =>
      rw [rows] at limit fits
      rw [List.length_cons] at limit
      refine ⟨⟨⟨brief.sound.own, ?_⟩, brief.file, ?_⟩, under', ?_, ?_⟩
      · intro other later
        exact fits other (List.mem_cons_of_mem _ later)
      · simp only
        omega
      · intro given same
        cases same
        exact fits row List.mem_cons_self
      · rw [left, left, rowless]
        simp only [taken_some, List.length_nil]
        omega

/-- Every row that a scan gives is one less that it can still give. -/
theorem next_fair (found : c.find? of.table = some of.entry) (s : FileScan) (brief : s.Brief settings of yields)
    {e : Engine} (under : Under c settings bound e) :
    Ensures next (s, e)
      (Fair c settings bound (Brief settings of yields) fun answer s' => (∀ row, answer = some row → yields row) ∧
        s'.left settings (bound of.table) + taken answer ≤ s.left settings (bound of.table)) := by
  cases pending : s.pending with
  | nil =>
    refine .congr (next_of_rowless pending) (advance_fair gives _ s brief pending ?_ under)
    rw [brief.file, under.ready.pagesOf_eq_pagesIn found]
    exact Nat.sub_le_sub_right (Nat.le_trans (pagesIn_le_reach e of.table) (under.reach of.table)) _
  | cons row rows =>
    have fits := brief.sound.pending
    have few := brief.pending
    rw [pending] at fits few
    rw [List.length_cons] at few
    rw [Ensures, next_of_pending pending]
    refine ⟨⟨⟨brief.sound.own, ?_⟩, brief.file, Nat.le_of_lt few⟩, under, ?_, ?_⟩
    · intro other later
      exact fits other (List.mem_cons_of_mem _ later)
    · intro given same
      cases same
      exact fits row List.mem_cons_self
    · rw [left, left, pending, List.length_cons, taken_some]
      simp only
      omega

end

end FileScan

end RowStore
