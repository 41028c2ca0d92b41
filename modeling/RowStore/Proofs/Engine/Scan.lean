import RowStore.Engine.Scan
import RowStore.Proofs.Engine.Rows
import RowStore.Proofs.Ledger
/-!
# What a scan gives

A scan has rows still to give: those it holds and those on the pages it has not come to. Every row it
gives is the first of them, and a scan that is interrupted has lost none. Nothing else happens but
that pages are looked at.
-/

namespace RowStore

theorem Ensures.engine_step {σ α : Type} {act : Action α} {s : σ} {e : Engine}
    {post : Except Fault α → Engine → Prop} (ensured : Ensures act e post) :
    Ensures (Step.engine act) (s, e) fun answer left => left.1 = s ∧ post answer left.2 := by
  rw [Ensures, Step.engine]
  cases result : act e with
  | ok a e' => exact ⟨rfl, ensured.of_ok result⟩
  | error fault e' => exact ⟨rfl, ensured.of_error result⟩

/-- Done on a part of the state, a step leaves the rest of it alone. -/
theorem Ensures.within_step {σ τ α : Type} {part : σ → τ} {replace : σ → τ → σ} {act : Step τ α} {s : σ} {e : Engine}
    {post : Except Fault α → τ × Engine → Prop} {goal : Except Fault α → σ × Engine → Prop}
    (ensured : Ensures act (part s, e) post)
    (whole : ∀ answer after, post answer after → goal answer (replace s after.1, after.2)) :
    Ensures (Step.within part replace act) (s, e) goal := by
  rw [Ensures, Step.within]
  cases result : act (part s, e) with
  | ok a after => exact whole _ _ (ensured.of_ok result)
  | error fault after => exact whole _ _ (ensured.of_error result)

/-- The row as it is read from where it is stored. -/
def Row.stored (schema : Schema) (entry : RowId × List Value) : Row :=
  { schema, values := entry.2, location := some entry.1 }

theorem Page.rows_of_contents (page : Page) (c : Contents)
    (same : ∀ slot, page.valuesAt slot = c ⟨page.id, slot⟩) :
    page.rows = (c.onPage page.slots.length page.id).map (Row.stored page.schema) := by
  rw [rows_eq, Contents.onPage, List.map_filterMap]
  congr 1
  funext slot
  show (page.valuesAt slot).map _ = _
  rw [same]
  cases c ⟨page.id, slot⟩ <;> rfl

namespace Engine

def rowsOn (e : Engine) (p : PageId) : List Row := (e.view? p).elim [] Page.rows

theorem SameFiles.pagesOf_eq {e e' : Engine} (same : SameFiles e e') (file : FileNo) :
    e'.pagesOf file = e.pagesOf file := by
  have files : (e'.files.map TableFile.unread)[file]? = (e.files.map TableFile.unread)[file]? := by
    rw [same.files]
  rw [List.getElem?_map, List.getElem?_map] at files
  rw [Engine.pagesOf, Engine.pagesOf]
  cases here : e'.files[file]? with
  | none =>
    rw [here, Option.map_none, eq_comm, Option.map_eq_none_iff] at files
    rw [files]
  | some g =>
    rw [here, Option.map_some, eq_comm, Option.map_eq_some_iff] at files
    obtain ⟨f, found, unread⟩ := files
    rw [found]
    exact (congrArg TableFile.pages unread).symm

def rowsFrom (e : Engine) (table : TableId) (numbers : List Nat) : List Row :=
  numbers.flatMap fun number => e.rowsOn ⟨table, number⟩

/-- Where a reader finds the contents on every page, the rows of a table are those of the contents. -/
theorem Coherent.rowsFrom_eq {e : Engine} (coherent : e.Coherent) (c : Contents) {table : TableId}
    {f : TableFile} (file : e.fileOf? table = some f)
    (same : ∀ number page, number < f.pages → e.view? ⟨table, number⟩ = some page →
      ∀ slot, page.valuesAt slot = c ⟨⟨table, number⟩, slot⟩) :
    e.rowsFrom table (List.range f.pages) =
      (c.inTable table f.pages (Page.capacity f.pageSize f.schema)).map (Row.stored f.schema) := by
  rw [rowsFrom, Contents.inTable, List.map_flatMap]
  apply List.flatMap_congr
  intro number among
  have inside := List.mem_range.mp among
  obtain ⟨page, seen, of⟩ := coherent.exists_view (p := ⟨table, number⟩) file inside
  have id := coherent.id_eq_of_view? seen
  have rows := page.rows_of_contents c (by
    rw [id]
    exact same number page inside seen)
  rw [rowsOn, seen]
  show page.rows = _
  rw [rows, of.sound.slots, of.schema, of.size, id]

theorem Browsed.rowsFrom_eq {txn : TxnId} {e e' : Engine} (browsed : Browsed txn e e') (table : TableId)
    (numbers : List Nat) : e'.rowsFrom table numbers = e.rowsFrom table numbers := by
  simp only [Engine.rowsFrom, rowsOn, browsed.swapped.view?_eq]

end Engine

namespace FileScan

open Engine

/-- The numbers of the pages a scan has not come to. -/
def ahead (s : FileScan) (e : Engine) : List Nat :=
  List.range' s.nextPage (e.pagesOf s.file - s.nextPage)

def remaining (s : FileScan) (e : Engine) : List Row := s.pending ++ e.rowsFrom s.table (s.ahead e)

/-- The scan is interrupted, or it has come to a page that does not exist. -/
def Halted (s : FileScan) (fault : Fault) (e : Engine) : Prop :=
  Interrupted s.txn fault e ∨
    ∃ number < e.pagesOf s.file, e.view? ⟨s.table, number⟩ = none ∧ fault = e.missing ⟨s.table, number⟩

/-- The two scans read the same file for the same transaction. -/
structure Alike (s s' : FileScan) : Prop where
  file : s'.file = s.file
  table : s'.table = s.table
  txn : s'.txn = s.txn

theorem remaining_of_browsed {txn : TxnId} {e e' : Engine} (browsed : Browsed txn e e') (s : FileScan) :
    s.remaining e' = s.remaining e := by
  rw [remaining, remaining, browsed.rowsFrom_eq, ahead, ahead, browsed.swapped.to_sameFiles.pagesOf_eq]

theorem remaining_start (e : Engine) (file : FileNo) (table : TableId) (txn : TxnId) :
    (start file table txn).remaining e = e.rowsFrom table (List.range (e.pagesOf file)) := by
  show [] ++ e.rowsFrom table (List.range' 0 (e.pagesOf file - 0)) = _
  rw [Nat.sub_zero, List.nil_append, List.range_eq_range']

theorem Alike.halted_of_alike {s s' : FileScan} (alike : Alike s s') {fault : Fault} {e : Engine}
    (halted : Halted s' fault e) : Halted s fault e := by
  rw [Halted, ← alike.file, ← alike.table, ← alike.txn]
  exact halted

theorem Alike.trans {s s' s'' : FileScan} (first : Alike s s') (second : Alike s' s'') : Alike s s'' :=
  ⟨second.file.trans first.file, second.table.trans first.table, second.txn.trans first.txn⟩

/-- What a scan has given, and what is left of it. -/
structure Gave (s : FileScan) (e : Engine) (answer : Except Fault (Option Row))
    (left : FileScan × Engine) : Prop where
  browsed : Browsed s.txn e left.2
  alike : Alike s left.1
  last : answer = .ok none → s.remaining e = [] ∧ left.1.remaining left.2 = []
  row : ∀ row, answer = .ok (some row) → s.remaining e = row :: left.1.remaining left.2
  halted : ∀ fault, answer = .error fault →
    left.1.remaining left.2 = s.remaining e ∧ Halted s fault left.2

theorem Gave.gave_after_browsed {s s₁ : FileScan} {e e₁ : Engine} {answer : Except Fault (Option Row)}
    {left : FileScan × Engine} (browsed : Browsed s.txn e e₁) (alike : Alike s s₁)
    (same : s₁.remaining e = s.remaining e) (gave : Gave s₁ e₁ answer left) : Gave s e answer left := by
  have begins : s₁.remaining e₁ = s.remaining e := by rw [remaining_of_browsed browsed, same]
  have further := gave.browsed
  rw [alike.txn] at further
  refine ⟨browsed.trans further, alike.trans gave.alike, ?_, ?_, ?_⟩
  · intro last
    rw [← begins]
    exact gave.last last
  · intro row given
    rw [← begins]
    exact gave.row row given
  · intro fault failed
    rw [← begins]
    exact ⟨(gave.halted fault failed).1, alike.halted_of_alike (gave.halted fault failed).2⟩

/-- The rows of the next page are the first that are left. -/
theorem remaining_of_page (s : FileScan) (e : Engine) (pages : Nat)
    (more : pages + 1 = e.pagesOf s.file - s.nextPage) :
    { s with nextPage := s.nextPage + 1, pending := s.pending ++ e.rowsOn ⟨s.table, s.nextPage⟩ }.remaining e =
      s.remaining e := by
  have fewer : e.pagesOf s.file - (s.nextPage + 1) = pages := by omega
  have here : s.ahead e = s.nextPage :: List.range' (s.nextPage + 1) pages := by
    rw [ahead, ← more, List.range'_succ]
  rw [remaining, remaining, here, rowsFrom, rowsFrom, List.flatMap_cons, ← List.append_assoc, ahead, fewer]

theorem advance_cons (s : FileScan) (e : Engine) (number : Nat) (rest : List Nat) :
    advance (number :: rest) (s, e) =
      (do
        let page ← Step.engine (getPage s.txn ⟨s.table, number⟩ .shared)
        match page.rows with
        | [] => do
          Step.update fun s => { s with nextPage := number + 1 }
          advance rest
        | row :: rows => do
          Step.update fun s => { s with nextPage := number + 1, pending := rows }
          return some row : Step FileScan (Option Row)) (s, e) := rfl

/-- The pages are gone through until one has a row. -/
theorem advance_ensures {e : Engine} (coherent : e.Coherent) (s : FileScan) (pages : Nat)
    (rowless : s.pending = []) (more : pages = e.pagesOf s.file - s.nextPage) :
    Ensures (advance (List.range' s.nextPage pages)) (s, e) (Gave s e) := by
  induction pages generalizing s e with
  | zero =>
    have nothing : s.remaining e = [] := by
      rw [remaining, rowless, ahead, ← more]
      rfl
    exact .pure ⟨.refl coherent, ⟨rfl, rfl, rfl⟩, fun _ => ⟨nothing, nothing⟩, by simp, by simp⟩
  | succ pages ih =>
    rw [List.range'_succ]
    have ensured := (getPage_browses coherent s.txn ⟨s.table, s.nextPage⟩ .shared).engine_step (s := s)
    refine Ensures.congr (advance_cons ..) (ensured.bind ?_ ?_)
    · intro page left gotten
      obtain ⟨s₁, e₁⟩ := left
      obtain ⟨same, browsed, seen, -⟩ := gotten
      obtain rfl : s₁ = s := same
      replace browsed : Browsed s₁.txn e e₁ := browsed
      have found : e.rowsOn ⟨s₁.table, s₁.nextPage⟩ = page.rows := by
        rw [rowsOn, seen]
        rfl
      have pagesOf := browsed.swapped.to_sameFiles.pagesOf_eq s₁.file
      have first := s₁.remaining_of_page e pages more
      rw [found] at first
      cases rows : page.rows with
      | nil =>
        rw [rows, List.append_nil] at first
        have fewer : pages = e₁.pagesOf s₁.file - (s₁.nextPage + 1) := by omega
        have later := ih browsed.coherent_after { s₁ with nextPage := s₁.nextPage + 1 } rowless fewer
        refine Ensures.mono (Ensures.congr rfl later) ?_
        intro answer left gave
        refine .gave_after_browsed browsed ?_ first gave
        exact ⟨rfl, rfl, rfl⟩
      | cons row rest =>
        rw [rows, rowless, List.nil_append] at first
        refine .pure ⟨browsed, ⟨rfl, rfl, rfl⟩, by simp, ?_, by simp⟩
        intro given same
        cases same
        rw [remaining_of_browsed browsed]
        exact first.symm
    · intro fault left failed
      obtain ⟨s₁, e₁⟩ := left
      obtain ⟨same, browsed, reason⟩ := failed
      obtain rfl : s₁ = s := same
      replace browsed : Browsed s₁.txn e e₁ := browsed
      refine ⟨browsed, ⟨rfl, rfl, rfl⟩, by simp, by simp, ?_⟩
      intro reported same
      cases same
      refine ⟨remaining_of_browsed browsed s₁, ?_⟩
      rcases reason with interrupted | ⟨absent, fault⟩
      · exact .inl interrupted
      · refine .inr ⟨s₁.nextPage, ?_, ?_, ?_⟩
        · rw [browsed.swapped.to_sameFiles.pagesOf_eq]
          omega
        · rw [browsed.swapped.view?_eq]
          exact absent
        · rw [browsed.swapped.missing_eq]
          exact fault

theorem next_of_rowless {s : FileScan} {e : Engine} (rowless : s.pending = []) :
    next (s, e) = advance (s.ahead e) (s, e) := by
  obtain ⟨file, table, txn, nextPage, pending⟩ := s
  obtain rfl : pending = [] := rowless
  rfl

theorem next_of_pending {s : FileScan} {e : Engine} {row : Row} {rows : List Row}
    (pending : s.pending = row :: rows) : next (s, e) = .ok (some row) ({ s with pending := rows }, e) := by
  obtain ⟨file, table, txn, nextPage, unread⟩ := s
  obtain rfl : unread = row :: rows := pending
  rfl

theorem next_ensures {e : Engine} (coherent : e.Coherent) (s : FileScan) :
    Ensures next (s, e) (Gave s e) := by
  cases pending : s.pending with
  | nil => exact .congr (next_of_rowless pending) (advance_ensures coherent s _ pending rfl)
  | cons row rows =>
    rw [Ensures, next_of_pending pending]
    refine ⟨.refl coherent, ⟨rfl, rfl, rfl⟩, by simp, ?_, by simp⟩
    intro given same
    cases same
    rw [remaining, pending]
    rfl

/-- What a scan that was asked for `n` rows has answered. -/
structure Took (s : FileScan) (e : Engine) (n : Nat) (rows : List (Option Row)) (fault : Option Fault)
    (left : FileScan × Engine) : Prop where
  browsed : Browsed s.txn e left.2
  alike : Alike s left.1
  whole : fault = none → rows = ((s.remaining e).map some ++ [none]).take n
  halted : ∀ reported, fault = some reported → Halted s reported left.2 ∧
    ∃ given, rows = given.map some ∧ s.remaining e = given ++ left.1.remaining left.2

theorem take_ensures {e : Engine} (coherent : e.Coherent) (s : FileScan) (n : Nat) :
    Ensures (take n) (s, e) fun
    | .ok (rows, fault), left => Took s e n rows fault left
    | .error _, _ => False := by
  induction n generalizing s e with
  | zero => exact .pure ⟨.refl coherent, ⟨rfl, rfl, rfl⟩, fun _ => rfl, by simp⟩
  | succ n ih =>
    have attempted : Ensures (attempt next) (s, e) fun
        | .ok answer, left => Gave s e answer left
        | .error _, _ => False :=
      (next_ensures coherent s).attempt fun _ _ gave => gave
    refine attempted.bind ?_ fun _ _ => False.elim
    intro answer left gave
    match answer with
    | .error fault =>
      obtain ⟨same, halted⟩ := gave.halted fault rfl
      refine .pure ⟨gave.browsed, gave.alike, by simp, ?_⟩
      intro reported same'
      cases same'
      exact ⟨halted, [], rfl, same.symm⟩
    | .ok none =>
      obtain ⟨nothing, -⟩ := gave.last rfl
      refine .pure ⟨gave.browsed, gave.alike, ?_, by simp⟩
      intro _
      rw [nothing, List.map_nil, List.nil_append, List.take_succ_cons, List.take_nil]
    | .ok (some row) =>
      have first := gave.row row rfl
      obtain ⟨s₁, e₁⟩ := left
      refine (ih gave.browsed.coherent_after s₁).bind ?_ fun _ _ => False.elim
      intro rest left took
      obtain ⟨rows, fault⟩ := rest
      have further : Browsed s₁.txn e₁ left.2 := took.browsed
      have alike : Alike s s₁ := gave.alike
      rw [alike.txn] at further
      refine .pure ⟨gave.browsed.trans further, alike.trans took.alike, ?_, ?_⟩
      · intro none
        rw [took.whole none, first]
        rfl
      · intro reported same
        obtain ⟨halted, given, rfl, left⟩ := took.halted reported same
        refine ⟨alike.halted_of_alike halted, row :: given, rfl, ?_⟩
        rw [first]
        change row :: s₁.remaining e₁ = _
        rw [left]
        rfl

/-! ### What a scan keeps -/

/-- The scan reads what the other reads, and the rows that it holds are good. -/
structure Carries (good : Row → Prop) (s t : FileScan) : Prop extends Alike s t where
  pending : ∀ row ∈ t.pending, good row

section Gives

variable {kept : Engine → Prop} {failed : Fault → Engine → Prop} {good : Row → Prop} {s : FileScan}
  {asked : Nat → Prop} (inside : ∀ e number, kept e → number < e.pagesOf s.file → asked number)
  (each : ∀ e number, kept e → asked number →
    Ensures (getPage s.txn ⟨s.table, number⟩ .shared) e fun
      | .ok page, e' => kept e' ∧ ∀ row ∈ page.rows, good row
      | .error fault, e' => kept e' ∧ failed fault e')

include each

/-- Whatever getting its pages keeps, going through them keeps, and the rows are those of the pages. -/
theorem advance_gives {e : Engine} (keeps : kept e) {t : FileScan} (carries : Carries good s t)
    (numbers : List Nat) (numbered : ∀ number ∈ numbers, asked number) :
    Ensures (advance numbers) (t, e) fun answer left => Carries good s left.1 ∧ kept left.2 ∧
      (∀ row, answer = .ok (some row) → good row) ∧ ∀ fault, answer = .error fault → failed fault left.2 := by
  induction numbers generalizing e t with
  | nil => exact .pure ⟨carries, keeps, by simp, by simp⟩
  | cons number rest ih =>
    have gets := each e number keeps (numbered number List.mem_cons_self)
    rw [← carries.txn, ← carries.table] at gets
    have ensured := gets.engine_step (s := t)
    refine Ensures.congr (advance_cons ..) (ensured.bind ?_ ?_)
    · intro page left gotten
      obtain ⟨t₁, e₁⟩ := left
      obtain ⟨same, keeps₁, goods⟩ := gotten
      obtain rfl : t₁ = t := same
      cases rows : page.rows with
      | nil =>
        have carries' : Carries good s { t₁ with nextPage := number + 1 } :=
          ⟨⟨carries.file, carries.table, carries.txn⟩, carries.pending⟩
        exact ih keeps₁ carries' fun other later => numbered other (List.mem_cons_of_mem _ later)
      | cons row rows' =>
        rw [rows] at goods
        have carries' : Carries good s { t₁ with nextPage := number + 1, pending := rows' } :=
          ⟨⟨carries.file, carries.table, carries.txn⟩, fun other later => goods other (List.mem_cons_of_mem _ later)⟩
        show Carries good s { t₁ with nextPage := number + 1, pending := rows' } ∧ kept e₁ ∧ _
        refine ⟨carries', keeps₁, ?_, by simp⟩
        intro given same
        cases same
        exact goods row List.mem_cons_self
    · intro fault left failing
      obtain ⟨t₁, e₁⟩ := left
      obtain ⟨same, keeps₁, failed₁⟩ := failing
      obtain rfl : t₁ = t := same
      refine ⟨carries, keeps₁, by simp, ?_⟩
      intro reported same
      cases same
      exact failed₁

include inside

theorem next_gives {e : Engine} (keeps : kept e) {t : FileScan} (carries : Carries good s t) :
    Ensures next (t, e) fun answer left => Carries good s left.1 ∧ kept left.2 ∧
      (∀ row, answer = .ok (some row) → good row) ∧ ∀ fault, answer = .error fault → failed fault left.2 := by
  cases pending : t.pending with
  | nil =>
    refine Ensures.congr (next_of_rowless pending) (advance_gives each keeps carries _ ?_)
    intro number among
    rw [ahead, List.mem_range'_1, carries.file] at among
    exact inside e number keeps (by omega)
  | cons row rows =>
    have goods := carries.pending
    rw [pending] at goods
    rw [Ensures, next_of_pending pending]
    refine ⟨⟨⟨carries.file, carries.table, carries.txn⟩, fun other later => goods other (List.mem_cons_of_mem _ later)⟩,
      keeps, ?_, by simp⟩
    intro given same
    cases same
    exact goods row List.mem_cons_self

theorem take_gives {e : Engine} (keeps : kept e) {t : FileScan} (carries : Carries good s t) (n : Nat) :
    Ensures (take n) (t, e) fun
    | .ok (rows, fault), left => Carries good s left.1 ∧ kept left.2 ∧ (∀ row, some row ∈ rows → good row) ∧
        ∀ reported, fault = some reported → failed reported left.2
    | .error _, _ => False := by
  induction n generalizing e t with
  | zero => exact .pure ⟨carries, keeps, by simp, by simp⟩
  | succ n ih =>
    have attempted : Ensures (attempt next) (t, e) fun
        | .ok answer, left => Carries good s left.1 ∧ kept left.2 ∧ (∀ row, answer = .ok (some row) → good row) ∧
            ∀ fault, answer = .error fault → failed fault left.2
        | .error _, _ => False :=
      (next_gives inside each keeps carries).attempt fun _ _ after => after
    refine attempted.bind ?_ fun _ _ => False.elim
    intro answer left after
    obtain ⟨t₁, e₁⟩ := left
    obtain ⟨carries₁, keeps₁, goods₁, failed₁⟩ := after
    match answer with
    | .error fault =>
      refine .pure ⟨carries₁, keeps₁, by simp, ?_⟩
      intro reported same
      cases same
      exact failed₁ fault rfl
    | .ok none => exact .pure ⟨carries₁, keeps₁, by simp, by simp⟩
    | .ok (some row) =>
      refine (ih keeps₁ carries₁).bind ?_ fun _ _ => False.elim
      intro rest left after
      obtain ⟨rows, fault⟩ := rest
      obtain ⟨carries₂, keeps₂, goods₂, failed₂⟩ := after
      refine .pure ⟨carries₂, keeps₂, ?_, failed₂⟩
      intro given among
      rcases List.mem_cons.mp among with first | later
      · cases first
        exact goods₁ row rfl
      · exact goods₂ given later

end Gives

section Keeps

/-- To have one of so many pages of the file keeps what is kept. -/
def Fetches (s : FileScan) (pages : Nat) (kept : Engine → Prop) (failed : Fault → Engine → Prop) : Prop :=
  ∀ e number, kept e → number < pages → Ensures (getPage s.txn ⟨s.table, number⟩ .shared) e fun
    | .ok _, e' => kept e'
    | .error fault, e' => kept e' ∧ failed fault e'

variable {kept : Engine → Prop} {failed : Fault → Engine → Prop} {s : FileScan} {pages : Nat}
  (long : ∀ e, kept e → e.pagesOf s.file = pages) (each : s.Fetches pages kept failed)

include each in
theorem gives_any (e : Engine) (number : Nat) (keeps : kept e) (inside : number < pages) :
    Ensures (getPage s.txn ⟨s.table, number⟩ .shared) e fun
      | .ok page, e' => kept e' ∧ ∀ row ∈ page.rows, (fun _ => True) row
      | .error fault, e' => kept e' ∧ failed fault e' := by
  refine (each e number keeps inside).mono ?_
  rintro (fault | page) e' done
  · exact done
  · exact ⟨done, fun _ _ => trivial⟩

include long each

theorem next_keeps {e : Engine} (keeps : kept e) {t : FileScan} (alike : Alike s t) :
    Ensures next (t, e) fun answer left => Alike s left.1 ∧ kept left.2 ∧
      ∀ fault, answer = .error fault → failed fault left.2 := by
  have given := next_gives (fun e number keeps inside => long e keeps ▸ inside) (gives_any each) keeps
    ⟨alike, fun _ _ => trivial⟩
  exact given.mono fun _ _ done => ⟨done.1.toAlike, done.2.1, done.2.2.2⟩

theorem take_keeps {e : Engine} (keeps : kept e) {t : FileScan} (alike : Alike s t) (n : Nat) :
    Ensures (take n) (t, e) fun
    | .ok (_, fault), left => Alike s left.1 ∧ kept left.2 ∧
        ∀ reported, fault = some reported → failed reported left.2
    | .error _, _ => False := by
  have given := take_gives (fun e number keeps inside => long e keeps ▸ inside) (gives_any each) keeps
    ⟨alike, fun _ _ => trivial⟩ n
  refine given.mono ?_
  rintro (fault | taken) left done
  · exact done
  · exact ⟨done.1.toAlike, done.2.1, done.2.2.2⟩

end Keeps

def given : Except Fault (Option Row) → List Row
  | .ok (some row) => [row]
  | _ => []

section Reads

/-- So many pages of the file can be had, each with such rows, and to have one keeps what is kept. -/
def Finds (s : FileScan) (pages : Nat) (rows : Nat → List Row → Prop) (kept : Engine → Prop) : Prop :=
  ∀ e number, kept e → number < pages → Ensures (getPage s.txn ⟨s.table, number⟩ .shared) e fun
    | .ok page, e' => kept e' ∧ rows number page.rows
    | .error _, e' => kept e'

/-- What is known of the number of the next page and of the rows that are pending is known after every row,
if it is known of each page when it has been read. -/
def Reads (kept : Engine → Prop) (passed : Nat → List Row → Prop) (pages : Nat) (s : FileScan) :
    Except Fault (Option Row) → FileScan × Engine → Prop
  | .ok (some row), left => Alike s left.1 ∧ kept left.2 ∧ passed left.1.nextPage (row :: left.1.pending)
  | .ok none, left => Alike s left.1 ∧ kept left.2 ∧ left.1.pending = [] ∧ passed left.1.nextPage [] ∧
      pages ≤ left.1.nextPage
  | .error _, left => Alike s left.1 ∧ kept left.2 ∧ passed left.1.nextPage left.1.pending

variable {kept : Engine → Prop} {passed : Nat → List Row → Prop} {s : FileScan} {pages : Nat}

/-- Whatever the scan has answered, it has given a row of those that are known, or none. -/
theorem Reads.known_of_reads {answer : Except Fault (Option Row)} {left : FileScan × Engine}
    (reads : Reads kept passed pages s answer left) :
    Alike s left.1 ∧ kept left.2 ∧ passed left.1.nextPage (given answer ++ left.1.pending) := by
  rcases answer with fault | _ | row
  · exact reads
  · obtain ⟨alike, keeps, rowless, here, -⟩ := reads
    refine ⟨alike, keeps, ?_⟩
    rw [rowless]
    exact here
  · exact reads

variable {rows : Nat → List Row → Prop} (finds : s.Finds pages rows kept)
  (reads : ∀ number < pages, ∀ given, rows number given → passed number [] → passed (number + 1) given)

include finds reads

theorem advance_reads {e : Engine} (keeps : kept e) {t : FileScan} (alike : Alike s t) (rowless : t.pending = [])
    (here : passed t.nextPage []) (count : Nat) (more : count = pages - t.nextPage) :
    Ensures (advance (List.range' t.nextPage count)) (t, e) (Reads kept passed pages s) := by
  induction count generalizing e t with
  | zero =>
    have past : pages ≤ t.nextPage := by omega
    exact .pure ⟨alike, keeps, rowless, here, past⟩
  | succ count ih =>
    rw [List.range'_succ]
    have inside : t.nextPage < pages := by omega
    have gets := finds e t.nextPage keeps inside
    rw [← alike.txn, ← alike.table] at gets
    refine Ensures.congr (advance_cons ..) (gets.engine_step.bind ?_ ?_)
    · rintro page ⟨t₁, e₁⟩ ⟨same, keeps₁, found⟩
      obtain rfl : t₁ = t := same
      have read := reads t₁.nextPage inside page.rows found here
      cases given : page.rows with
      | nil =>
        rw [given] at read
        exact ih (t := { t₁ with nextPage := t₁.nextPage + 1 }) keeps₁ ⟨alike.file, alike.table, alike.txn⟩ rowless
          read (show count = pages - (t₁.nextPage + 1) by omega)
      | cons row rest =>
        rw [given] at read
        exact ⟨⟨alike.file, alike.table, alike.txn⟩, keeps₁, read⟩
    · rintro fault ⟨t₁, e₁⟩ ⟨same, keeps₁⟩
      obtain rfl : t₁ = t := same
      refine ⟨alike, keeps₁, ?_⟩
      change passed t₁.nextPage t₁.pending
      rw [rowless]
      exact here

theorem next_reads {e : Engine} (long : ∀ e, kept e → e.pagesOf s.file = pages) (keeps : kept e)
    (here : passed s.nextPage s.pending) : Ensures next (s, e) (Reads kept passed pages s) := by
  cases pending : s.pending with
  | nil =>
    rw [pending] at here
    exact .congr (next_of_rowless pending)
      (advance_reads finds reads keeps ⟨rfl, rfl, rfl⟩ pending here _ (by rw [long e keeps]))
  | cons row rest =>
    rw [Ensures, next_of_pending pending]
    rw [pending] at here
    exact ⟨⟨rfl, rfl, rfl⟩, keeps, here⟩

end Reads

end FileScan

end RowStore
