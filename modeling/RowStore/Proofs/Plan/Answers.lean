import RowStore.Proofs.Lock.Waits
import RowStore.Proofs.Plan.Meaning
import RowStore.Proofs.Plan.Telling
/-!
# Plans answer what they mean

While the tables that a plan reads show the same rows, its source tells the rows that it means: one source
is built on another just as one meaning is on another. A scan has still to give the rows that it holds and
those on the pages it has not come to, a filter those of its child that pass, and a join those that match
the left row at hand and then all pairs with the left rows to come.
-/

namespace RowStore

open Engine

/-! ### Tables -/

/-- Those of the rows that are stored on the page of that number or on a later one. -/
def storedFrom (number : Nat) (rows : List Row) : List Row :=
  rows.filter fun row => row.location.any fun at_ => decide (number ≤ at_.page.number)

namespace Engine

/-- The rows of the table, page by page and slot by slot. -/
def rowsOf (e : Engine) (table : TableId) : List Row := e.rowsFrom table (List.range (e.pagesIn table))

/-- The engine has the tables of the catalog, and those among them show the contents. -/
structure Shows (c : Catalog) (contents : TableId → List Row) (among : List TableId) (e : Engine) : Prop where
  coherent : e.Coherent
  catalog : e.catalog = c
  rows : ∀ table ∈ among, e.rowsOf table = contents table

variable {c : Catalog} {contents : TableId → List Row} {among : List TableId} {e e' : Engine}

theorem Browsed.rowsOf_eq {txn : TxnId} (browsed : Browsed txn e e') (table : TableId) :
    e'.rowsOf table = e.rowsOf table := by
  rw [Engine.rowsOf, Engine.rowsOf, browsed.rowsFrom_eq, browsed.swapped.to_sameFiles.pagesIn_eq]

theorem Shows.shows_of_browsed {txn : TxnId} (shows : Shows c contents among e) (browsed : Browsed txn e e') :
    Shows c contents among e' where
  coherent := browsed.coherent_after
  catalog := browsed.swapped.to_sameFiles.catalog.trans shows.catalog
  rows table here := (browsed.rowsOf_eq table).trans (shows.rows table here)

/-- Only another transaction that is writing to a page stands in the way of one that reads it. -/
theorem Coherent.getPage_barred (coherent : e.Coherent) (txn : TxnId) (p : PageId) :
    Ensures (getPage txn p .shared) e fun answer e' =>
      ∀ other, answer = .error (.aborted other) → e'.Barred p.table other := by
  refine (getPage_ensures coherent txn p .shared).mono ?_
  rintro answer e' gotten other rfl
  obtain ⟨-, -, ⟨blocked, aborted, locks⟩ | ⟨-, -, -, ⟨full, -⟩ | ⟨-, absent⟩⟩⟩ := gotten
  · cases aborted
    obtain ⟨blocker, among⟩ := List.exists_mem_of_ne_nil _ blocked
    obtain ⟨differs, mode, held, conflicts⟩ := (LockTable.mem_blockers_iff ..).mp among
    refine ⟨p.number, blocker, differs, ?_⟩
    rw [locks, LockTable.mode?_giveUp]
    cases mode with
    | shared => exact absurd conflicts (by simp [LockTable.conflict])
    | exclusive => exact held
  · exact absurd full (by simp)
  · rw [missing] at absent
    split at absent <;> exact absurd absent (by simp)

theorem Coherent.suits_of_mem (coherent : e.Coherent) {table : TableId} {row : Row} (here : row ∈ e.rowsOf table) :
    row.Suits e.catalog table := by
  obtain ⟨number, -, here⟩ := List.mem_flatMap.mp here
  rw [rowsOn] at here
  cases seen : e.view? ⟨table, number⟩ with
  | none =>
    rw [seen] at here
    exact absurd here (by simp)
  | some page =>
    rw [seen] at here
    exact FileScan.gives_suiting e.catalog table e _ page coherent rfl rfl seen row here

theorem Coherent.storedFrom_rowsOn (coherent : e.Coherent) (start : Nat) (p : PageId) :
    storedFrom start (e.rowsOn p) = if start ≤ p.number then e.rowsOn p else [] := by
  have located : ∀ row ∈ e.rowsOn p, row.location.map RowId.page = some p := by
    intro row here
    rw [rowsOn] at here
    cases seen : e.view? p with
    | none =>
      rw [seen] at here
      exact absurd here (by simp)
    | some page =>
      rw [seen, Option.elim_some, Page.rows_eq] at here
      obtain ⟨slot, -, found⟩ := List.mem_filterMap.mp here
      obtain ⟨values, -, rfl⟩ := Option.map_eq_some_iff.mp found
      exact congrArg some (coherent.id_eq_of_view? seen)
  split
  · rename_i later
    apply List.filter_eq_self.mpr
    intro row here
    obtain ⟨at_, same, rfl⟩ := Option.map_eq_some_iff.mp (located row here)
    simp [same, later]
  · rename_i earlier
    apply List.filter_eq_nil_iff.mpr
    intro row here
    obtain ⟨at_, same, rfl⟩ := Option.map_eq_some_iff.mp (located row here)
    simp [same, earlier]

theorem rowsFrom_cons (e : Engine) (table : TableId) (number : Nat) (rest : List Nat) :
    e.rowsFrom table (number :: rest) = e.rowsOn ⟨table, number⟩ ++ e.rowsFrom table rest := List.flatMap_cons

theorem Coherent.storedFrom_rowsFrom (coherent : e.Coherent) (start : Nat) (table : TableId) (numbers : List Nat) :
    storedFrom start (e.rowsFrom table numbers) =
      e.rowsFrom table (numbers.filter fun number => decide (start ≤ number)) := by
  induction numbers with
  | nil => rfl
  | cons number rest ih =>
    have apart : storedFrom start (e.rowsOn ⟨table, number⟩ ++ e.rowsFrom table rest) =
        storedFrom start (e.rowsOn ⟨table, number⟩) ++ storedFrom start (e.rowsFrom table rest) := List.filter_append ..
    rw [rowsFrom_cons, apart, ih, coherent.storedFrom_rowsOn, List.filter_cons]
    by_cases later : start ≤ number
    · simp only [later, decide_true, if_true, rowsFrom_cons]
    · simp [later]

theorem filter_range_eq (start pages : Nat) :
    ((List.range pages).filter fun number => decide (start ≤ number)) = List.range' start (pages - start) := by
  induction pages with
  | zero => rw [Nat.zero_sub]; rfl
  | succ pages ih =>
    rw [List.range_succ, List.filter_append, ih]
    by_cases later : start ≤ pages
    · rw [Nat.succ_sub later, List.range'_concat, Nat.one_mul, Nat.add_sub_cancel' later]
      simp [later]
    · have none : pages + 1 - start = 0 := by omega
      have none' : pages - start = 0 := by omega
      simp [none, none', later]

/-- On the pages from one on there are those of the rows of the table that are stored there. -/
theorem Coherent.rowsFrom_range' (coherent : e.Coherent) (table : TableId) (start : Nat) :
    e.rowsFrom table (List.range' start (e.pagesIn table - start)) = storedFrom start (e.rowsOf table) := by
  rw [rowsOf, coherent.storedFrom_rowsFrom, filter_range_eq]

end Engine

namespace FileScan

variable {c : Catalog} {contents : TableId → List Row} {among : List TableId} {e : Engine}

/-- The scan is one of the table, and it has still to give these rows. -/
structure Comes (of : ScanOf) (contents : TableId → List Row) (rest : List Row) (s : FileScan) : Prop where
  file : s.file = of.entry.file
  table : s.table = of.table
  rest : s.pending ++ storedFrom s.nextPage (contents of.table) = rest

/-- A scan is told that a lock cannot be had only when another transaction is writing to its table. -/
theorem next_barred (coherent : e.Coherent) (s : FileScan) :
    Ensures next (s, e) fun answer after =>
      ∀ txn, answer = .error (.aborted txn) → after.2.Barred s.table txn := by
  have each : s.Fetches (e.pagesOf s.file) (Browsed s.txn e) fun fault e₁ =>
      ∀ txn, fault = .aborted txn → e₁.Barred s.table txn := by
    intro e₁ number browsed _
    refine ((getPage_browses browsed.coherent_after s.txn ⟨s.table, number⟩ .shared).and
      (browsed.coherent_after.getPage_barred s.txn ⟨s.table, number⟩)).mono ?_
    rintro (fault | page) e₂ ⟨gotten, barred⟩
    · exact ⟨browsed.trans gotten.1, fun txn aborted => barred txn (congrArg Except.error aborted)⟩
    · exact browsed.trans gotten.1
  have long : ∀ e₁, Browsed s.txn e e₁ → e₁.pagesOf s.file = e.pagesOf s.file :=
    fun _ browsed => browsed.swapped.to_sameFiles.pagesOf_eq s.file
  refine (next_keeps long each (.refl coherent) ⟨rfl, rfl, rfl⟩).mono ?_
  exact fun answer after kept txn aborted => kept.2.2 _ aborted txn rfl

section

variable {of : ScanOf} (found : c.find? of.table = some of.entry)

include found

theorem remaining_of_shows (here : of.table ∈ among) (shows : Shows c contents among e) (s : FileScan)
    (file : s.file = of.entry.file) (table : s.table = of.table) :
    s.remaining e = s.pending ++ storedFrom s.nextPage (contents of.table) := by
  rw [← shows.catalog] at found
  have pages : e.pagesOf s.file = e.pagesIn of.table := by
    rw [file]
    exact shows.coherent.pagesOf_eq_pagesIn found
  rw [remaining, ahead, table, pages, shows.coherent.rowsFrom_range', shows.rows of.table here]

theorem refusal_of_halted (coherent : e.Coherent) (catalog : e.catalog = c) (s : FileScan)
    (file : s.file = of.entry.file) (table : s.table = of.table) {fault : Fault} (halted : Halted s fault e)
    (barred : ∀ txn, fault = .aborted txn → e.Barred of.table txn) (here : of.table ∈ among) :
    Refusal among fault e := by
  rcases halted with (rfl | ⟨rfl, -⟩) | ⟨number, inside, missing, -⟩
  · exact .inr ⟨s.txn, rfl, of.table, here, barred s.txn rfl⟩
  · exact .inl rfl
  · rw [← catalog] at found
    obtain ⟨f, opened, -, -⟩ := coherent.opened found
    rw [file, pagesOf_of_fileOf? found opened] at inside
    rw [table] at missing
    obtain ⟨page, seen, -⟩ := coherent.exists_view (p := ⟨of.table, number⟩) opened inside
    exact absurd (missing.symm.trans seen) (by simp)

variable (here : of.table ∈ among)

include here

omit found in
theorem comes_start (shows : Shows c contents among e) :
    (start of.entry.file of.table of.txn).Comes of contents (contents of.table) := by
  refine ⟨rfl, rfl, ?_⟩
  have all := shows.coherent.rowsFrom_range' of.table 0
  rw [shows.rows of.table here, Nat.sub_zero, ← List.range_eq_range'] at all
  exact all.symm.trans (shows.rows of.table here)

theorem next_plain {sure : Prop} {rest : List Row} {s : FileScan} (comes : s.Comes of contents rest)
    (shows : Shows c contents among e) :
    Ensures next (s, e) (Plain (Shows c contents among) (Refusal among) sure (.ok rest.head?) (Comes of contents rest.tail)
      (Comes of contents rest)) := by
  have before := remaining_of_shows found here shows s comes.file comes.table
  rw [comes.rest] at before
  refine ((next_ensures shows.coherent s).and (next_barred shows.coherent s)).mono ?_
  rintro answer ⟨s', e'⟩ ⟨gave, barred⟩
  have shown := shows.shows_of_browsed gave.browsed
  have file : s'.file = of.entry.file := gave.alike.file.trans comes.file
  have table : s'.table = of.table := gave.alike.table.trans comes.table
  have after := remaining_of_shows found here shown s' file table
  refine ⟨shown, ?_⟩
  match answer with
  | .ok none =>
    obtain ⟨nothing, nothing'⟩ := gave.last rfl
    obtain rfl : rest = [] := before.symm.trans nothing
    exact .inl ⟨rfl, file, table, after.symm.trans nothing'⟩
  | .ok (some row) =>
    obtain rfl : rest = row :: s'.remaining e' := before.symm.trans (gave.row row rfl)
    exact .inl ⟨rfl, file, table, after.symm⟩
  | .error fault =>
    obtain ⟨same, halted⟩ := gave.halted fault rfl
    have writing : ∀ txn, fault = .aborted txn → e'.Barred of.table txn := by
      intro txn aborted
      rw [← comes.table]
      exact barred txn (congrArg Except.error aborted)
    have refusal := refusal_of_halted found shown.coherent shown.catalog s comes.file comes.table halted writing here
    exact .inr ⟨⟨fault, rfl, refusal⟩, fun _ => ⟨file, table, after.symm.trans (same.trans before)⟩⟩

end

end FileScan

namespace Source

variable {shows : Engine → Prop} {refusal : Fault → Engine → Prop} {sure : Prop}

theorem ofRows_answers (rows : List Row) :
    (ofRows rows).Answers shows refusal sure rows fun rest (left : List Row) => left = rest ∧ rest <:+ rows where
  start s e shown := ⟨shown, .inl ⟨rfl, rfl, List.suffix_refl rows⟩⟩
  fetch rest s e still shown := by
    obtain ⟨rfl, suffix⟩ := still
    cases s with
    | nil => exact ⟨shown, .inl ⟨rfl, rfl, suffix⟩⟩
    | cons row later => exact ⟨shown, .inl ⟨rfl, rfl, (List.suffix_cons row later).trans suffix⟩⟩
  replay again same := absurd same (by simp [ofRows])
  limit := .inr fun e _ => ⟨Nat.le_refl _, fun rest s still => still.2.length_le⟩

theorem ofTable_tells {c : Catalog} {contents : TableId → List Row} {among : List TableId} (of : ScanOf)
    (found : c.find? of.table = some of.entry) (here : of.table ∈ among) :
    (ofTable of).Tells (Shows c contents among) among sure ((contents of.table).map (·.under of.schema))
      fun rest (state : Option FileScan) => ∃ scan read, state = some scan ∧ scan.Comes of contents read ∧
        rest = read.map (·.under of.schema) where
  start s e shown := ⟨shown, .inl ⟨rfl, _, _, rfl, FileScan.comes_start here shown, rfl⟩⟩
  fetch rest s e still shown := by
    obtain ⟨scan, read, rfl, comes, rfl⟩ := still
    have drawn : Ensures (Step.within (fun _ => scan) (fun _ scan => some scan) FileScan.next) (some scan, e)
        (Plain (Shows c contents among) (Refusal among) sure (.ok read.head?)
          (fun state => ∃ scan, state = some scan ∧ scan.Comes of contents read.tail)
          fun state => ∃ scan, state = some scan ∧ scan.Comes of contents read) :=
      (FileScan.next_plain found here comes shown).plain_within (fun scan' comes' => ⟨scan', rfl, comes'⟩)
        fun scan' comes' => ⟨scan', rfl, comes'⟩
    refine .congr rfl (drawn.plain_bind ?_ ?_)
    · rintro state e' shown' ⟨scan', rfl, comes'⟩
      refine ⟨shown', .inl ⟨?_, scan', read.tail, rfl, comes', List.map_tail.symm⟩⟩
      rw [List.head?_map]
    · rintro state ⟨scan', rfl, comes'⟩
      exact ⟨scan', read, rfl, comes', rfl⟩
  replay again same := absurd same (by simp [ofTable])
  limit := .inl fun _ _ => .inl rfl

theorem filter_answers {child : Source} {rows : List Row} {still : List Row → child.State → Prop}
    (answers : child.Answers shows refusal sure rows still) (condition : Condition) :
    (filter condition child).Answers shows refusal sure (rows.filter condition.accepts)
      (Cursor.Sifts still condition.accepts) where
  start cur e shown :=
    (Cursor.start_plain answers shown cur).plain_mono (fun _ draws => ⟨rows, draws, rfl⟩) fun _ => id
  fetch rest cur e sifts shown := Cursor.sift_plain answers condition.accepts shown sifts
  replay again same := absurd same (by simp [filter])
  limit := by
    refine answers.limit.imp_right fun limit e shown => ?_
    obtain ⟨most, later⟩ := limit e shown
    refine ⟨Nat.le_trans (List.length_filter_le ..) most, ?_⟩
    rintro _ cur ⟨all, draws, rfl⟩
    exact Nat.le_trans (List.length_filter_le ..) (later all cur.inner draws.inner)

/-! ### Joins -/

namespace Joining

variable {left right : Source} {still : List Row → left.State → Prop} {still' : List Row → right.State → Prop}
  {ls rs : List Row} {accepts : Row → Row → Bool} {rest : List (Row × Row)} {e : Engine}

/-- Every left row in turn, with all right rows in turn that match it. -/
def allPairs (accepts : Row → Row → Bool) (ls rs : List Row) : List (Row × Row) :=
  ls.flatMap fun l => (rs.filter (accepts l)).map (l, ·)

theorem map_allPairs (accepts : Row → Row → Bool) (ls rs : List Row) (f : Row → Row → Row) :
    ((allPairs accepts ls rs).map fun (l, r) => f l r) = ls.flatMap fun l => (rs.filter (accepts l)).map (f l) := by
  rw [allPairs, List.map_flatMap]
  simp only [List.map_map]
  rfl

theorem length_allPairs_le (accepts : Row → Row → Bool) (ls rs : List Row) :
    (allPairs accepts ls rs).length ≤ ls.length * rs.length := by
  induction ls with
  | nil => exact Nat.zero_le _
  | cons l ls ih =>
    have here := List.length_filter_le (accepts l) rs
    rw [allPairs] at ih ⊢
    rw [List.flatMap_cons, List.length_append, List.length_map, List.length_cons, Nat.succ_mul]
    omega

/-- The pairs of the left rows with the right rows `rs` are still to come, and for the left row at hand those with
the right rows that are left: between two left rows the right side is at its beginning. -/
inductive Awaits (still : List Row → left.State → Prop) (still' : List Row → right.State → Prop)
    (accepts : Row → Row → Bool) (rs : List Row) : List Row → List (Row × Row) → Joining left right → Prop
  | between {ls l r} : Cursor.Draws still ls l → Cursor.Draws still' rs r →
      Awaits still still' accepts rs ls (allPairs accepts ls rs) ⟨l, r, none⟩
  | matching {ls later outer l r} : Cursor.Draws still ls l → Cursor.Sifts still' (accepts outer) later r →
      Awaits still still' accepts rs (outer :: ls) (later.map (outer, ·) ++ allPairs accepts ls rs) ⟨l, r, some outer⟩

variable {j : Joining left right} {lefts : List Row}

theorem length_le_of_awaits {most most' : Nat} (awaits : Awaits still still' accepts rs lefts rest j)
    (limit : ∀ later s, still later s → later.length ≤ most) (whole : rs.length ≤ most')
    (limit' : ∀ later s, still' later s → later.length ≤ most') : rest.length ≤ (most + 1) * most' := by
  cases awaits with
  | @between _ l r ahead behind =>
    refine Nat.le_trans (length_allPairs_le ..) (Nat.mul_le_mul ?_ whole)
    exact Nat.le_succ_of_le (limit _ _ ahead.inner)
  | @matching ls later outer l r ahead sifts =>
    obtain ⟨all, behind, rfl⟩ := sifts
    have matched : (all.filter (accepts outer)).length ≤ most' :=
      Nat.le_trans (List.length_filter_le ..) (limit' _ _ behind.inner)
    have pairs : (allPairs accepts ls rs).length ≤ most * most' :=
      Nat.le_trans (length_allPairs_le ..) (Nat.mul_le_mul (limit _ _ ahead.inner) whole)
    rw [List.length_append, List.length_map, Nat.succ_mul]
    omega

variable (answers : left.Answers shows refusal sure ls still)

include answers

/-- To take the next left row loses no pair. -/
theorem current_plain (awaits : Awaits still still' accepts rs lefts rest j) (shown : shows e) :
    (lefts = [] → rest = []) ∧ Ensures current (j, e) (Plain shows refusal sure (.ok lefts.head?)
      (fun j' => j'.outer = lefts.head? ∧ Awaits still still' accepts rs lefts rest j')
      (Awaits still still' accepts rs lefts rest)) := by
  cases awaits with
  | @matching ls later outer l r ahead sifts =>
    exact ⟨fun same => absurd same (by simp), shown, .inl ⟨rfl, rfl, .matching ahead sifts⟩⟩
  | @between _ l r ahead behind =>
    refine ⟨?_, ?_⟩
    · rintro rfl
      rfl
    · have pulled : Ensures (onLeft Cursor.pull) ((⟨l, r, none⟩ : Joining left right), e)
          (Plain shows refusal sure (.ok lefts.head?) (fun j' => ∃ l', l'.Draws still lefts.tail ∧ j' = ⟨l', r, none⟩)
            (Awaits still still' accepts rs lefts (allPairs accepts lefts rs))) :=
        (Cursor.pull_draws answers shown ahead).plain_within (fun l' drawn => ⟨l', drawn, rfl⟩)
          fun l' kept => .between kept behind
      refine .congr rfl (pulled.plain_bind ?_ fun _ kept => kept)
      rintro _ e' shown' ⟨l', ahead', rfl⟩
      refine ⟨shown', .inl ⟨rfl, rfl, ?_⟩⟩
      cases lefts with
      | nil => exact .between ahead' behind
      | cons outer lefts => exact .matching ahead' ⟨rs, behind, rfl⟩

/-- A join takes turns enough. -/
theorem enough_turns (awaits : Awaits still still' accepts rs lefts rest j) (shown : shows e) :
    Enough shows refusal (left.limit e + 2) lefts := by
  refine answers.limit.imp_right fun limit => ?_
  cases awaits with
  | between ahead _ => exact Nat.lt_succ_of_le (Nat.le_succ_of_le ((limit e shown).2 _ _ ahead.inner))
  | matching ahead _ => exact Nat.succ_lt_succ (Nat.lt_succ_of_le ((limit e shown).2 _ _ ahead.inner))

variable (answers' : right.Answers shows refusal sure rs still')

include answers'

theorem nextPair_plain (turns : Nat) (awaits : Awaits still still' accepts rs lefts rest j) (shown : shows e)
    (enough : Enough shows refusal turns lefts) :
    Ensures (nextPair accepts turns) (j, e) (Plain shows refusal sure (.ok rest.head?)
      (fun j' => ∃ lefts', Awaits still still' accepts rs lefts' rest.tail j')
      (fun j' => ∃ lefts', Awaits still still' accepts rs lefts' rest j')) := by
  induction turns generalizing j e lefts rest with
  | zero => exact .plain_full shown (enough.refusal_of_zero shown) ⟨lefts, awaits⟩
  | succ turns ih =>
    obtain ⟨ended, taken⟩ := current_plain answers awaits shown
    refine taken.plain_bind ?_ fun _ kept => ⟨lefts, kept⟩
    rintro j' e' shown' ⟨same, awaits'⟩
    cases awaits' with
    | between ahead behind =>
      obtain rfl := List.head?_eq_none_iff.mp same.symm
      exact ⟨shown', .inl ⟨rfl, [], .between ahead behind⟩⟩
    | @matching lefts later outer l r ahead sifts =>
      have found : Ensures (onRight do Cursor.find (accepts outer) (← Cursor.turns right))
          ((⟨l, r, some outer⟩ : Joining left right), e') (Plain shows refusal sure (.ok later.head?)
            (fun j' => ∃ r', r'.Sifts still' (accepts outer) later.tail ∧ j' = ⟨l, r', some outer⟩)
            (Awaits still still' accepts rs (outer :: lefts) (later.map (outer, ·) ++ allPairs accepts lefts rs))) := by
        refine Ensures.plain_within (Cursor.sift_plain answers' (accepts outer) shown' sifts) ?_ ?_
        · exact fun r' sifts' => ⟨r', sifts', rfl⟩
        · exact fun r' kept => .matching ahead kept
      refine found.plain_bind ?_ fun _ kept => ⟨_, kept⟩
      rintro _ e'' shown'' ⟨r', sifts', rfl⟩
      cases later with
      | cons right later => exact ⟨shown'', .inl ⟨rfl, outer :: lefts, .matching ahead sifts'⟩⟩
      | nil =>
        obtain ⟨all, behind, -⟩ := sifts'
        have rewound : Ensures (onRight Cursor.rewind) ((⟨l, r', none⟩ : Joining left right), e'')
            (Plain shows refusal sure (.ok ()) (Awaits still still' accepts rs lefts (allPairs accepts lefts rs))
              fun _ => False) :=
          (Cursor.rewind_plain answers' shown'' behind.to_awaits).plain_within (fun r'' behind' =>
            .between ahead behind')
            fun _ => id
        refine .update_bind (rewound.plain_bind ?_ fun _ => False.elim)
        exact fun j'' e₁ shown₁ awaits'' => ih awaits'' shown₁ enough.enough_tail

end Joining

theorem join_answers {left right : Source} {ls rs : List Row} {still : List Row → left.State → Prop}
    {still' : List Row → right.State → Prop} (answers : left.Answers shows refusal sure ls still)
    (answers' : right.Answers shows refusal sure rs still') (condition : JoinCondition) (schema : Schema) :
    (join condition schema left right).Answers shows refusal sure
      ((Joining.allPairs condition.accepts ls rs).map fun (l, r) => Row.joined schema l r)
      fun rest (j : Joining left right) => ∃ lefts pairs, Joining.Awaits still still' condition.accepts rs lefts pairs j ∧
        rest = pairs.map fun (l, r) => Row.joined schema l r where
  start j e shown := by
    have first : Ensures (Joining.onLeft Cursor.start) (j, e)
        (Plain shows refusal sure (.ok ()) (fun j' => j'.left.Draws still ls) fun _ => False) :=
      (Cursor.start_plain answers shown j.left).plain_within (fun _ ahead => ahead) fun _ => id
    refine first.plain_bind ?_ fun _ => False.elim
    intro j' e' shown' ahead
    have second : Ensures (Joining.onRight Cursor.start) (j', e')
        (Plain shows refusal sure (.ok ()) (fun j'' => j''.left.Draws still ls ∧ j''.right.Draws still' rs)
          fun _ => False) :=
      (Cursor.start_plain answers' shown' j'.right).plain_within (fun _ behind => ⟨ahead, behind⟩) fun _ => id
    refine second.plain_bind ?_ fun _ => False.elim
    rintro j'' e'' shown'' ⟨ahead, behind⟩
    exact ⟨shown'', .inl ⟨rfl, ls, _, .between ahead behind, rfl⟩⟩
  fetch rest j e still shown := by
    obtain ⟨lefts, pairs, awaits, rfl⟩ := still
    have enough := Joining.enough_turns answers awaits shown
    refine .theEngine_bind ((Joining.nextPair_plain answers answers' _ awaits shown enough).plain_bind ?_ ?_)
    · rintro j' e' shown' ⟨lefts', awaits'⟩
      refine ⟨shown', .inl ⟨?_, lefts', pairs.tail, awaits', List.map_tail.symm⟩⟩
      rw [List.head?_map]
    · rintro j' ⟨lefts', kept⟩
      exact ⟨lefts', pairs, kept, rfl⟩
  replay again same := absurd same (by simp [join])
  limit := by
    rcases answers.limit with full | limit
    · exact .inl full
    rcases answers'.limit with full | limit'
    · exact .inl full
    refine .inr fun e shown => ⟨?_, ?_⟩
    · rw [List.length_map]
      refine Nat.le_trans (Joining.length_allPairs_le ..) (Nat.mul_le_mul ?_ (limit' e shown).1)
      exact Nat.le_succ_of_le (limit e shown).1
    · rintro _ j ⟨lefts, pairs, awaits, rfl⟩
      rw [List.length_map]
      exact Joining.length_le_of_awaits awaits (limit e shown).2 (limit' e shown).1 (limit' e shown).2

/-! ### Aggregates -/

/-- The rows of the child are taken in when the source is started, so it is not sure to start. -/
theorem aggregate_answers {child : Source} {rows results : List Row} {still : List Row → child.State → Prop}
    (answers : child.Answers shows refusal sure rows still) {grouping : Grouping} {types : List ColType}
    (within : grouping.Within types) (conform : ∀ row ∈ rows, row.Conforms types)
    (summarised : grouping.summarised rows = .ok results) (unsure : ¬sure) (full : ∀ e, shows e → refusal .poolFull e) :
    (aggregate grouping child).Answers shows refusal sure results
      fun rest (a : Aggregating child) => a.results = results ∧ a.rest = rest where
  start a e shown := by
    have taken : Ensures (Aggregating.summarise grouping) (a.child, e)
        (Plain shows refusal sure (.ok results) (fun _ => True) fun _ => False) := by
      refine (Cursor.start_plain answers shown a.child).plain_bind ?_ fun _ => False.elim
      intro cur e' shown' draws
      have drained := Cursor.drain_plain answers grouping.merge (child.limit e' + 2) shown' draws.to_awaits (.inl full)
        (Grouping.foldlM_merge within conform)
      refine (drained.plain_unsure unsure).plain_bind ?_ fun _ => False.elim
      intro cur' e'' shown'' _
      change grouping.results (grouping.groupsOf rows) = .ok results at summarised
      rw [summarised]
      exact .plain_pure shown'' trivial
    have started : Ensures (Aggregating.onChild (Aggregating.summarise grouping)) (a, e)
        (Plain shows refusal sure (.ok results) (fun _ => True) fun _ => False) :=
      taken.plain_within (fun _ _ => trivial) fun _ => id
    refine started.plain_bind ?_ fun _ => False.elim
    exact fun a' e' shown' _ => ⟨shown', .inl ⟨rfl, rfl, rfl⟩⟩
  fetch rest a e still shown := by
    obtain ⟨child, results, left⟩ := a
    obtain ⟨rfl, rfl⟩ := still
    cases left with
    | nil => exact ⟨shown, .inl ⟨rfl, rfl, rfl⟩⟩
    | cons row later => exact ⟨shown, .inl ⟨rfl, rfl, rfl⟩⟩
  replay again same rest a still := by
    cases same
    exact ⟨still.1, still.1⟩
  limit := .inl full

end Source

/-! ### Plans -/

namespace Plan

/-- No rows are read before the plan is asked for one. -/
def isLazy : Plan → Bool
  | .rows _ _ => true
  | .scan _ => true
  | .filter _ child => child.isLazy
  | .join _ left right => left.isLazy && right.isLazy
  | .aggregate _ _ => false
  | .insert _ _ child => child.isLazy
  | .delete _ child => child.isLazy

variable {c : Catalog} {contents : TableId → List Row} {among : List TableId}

theorem Reads.tells_meaning {plan : Plan} (reads : plan.Reads c) (within : ∀ table ∈ plan.tables, table ∈ among)
    (suit : ∀ table ∈ among, ∀ row ∈ contents table, row.Suits c table) {rows : List Row}
    (means : plan.meaning contents = .ok rows) {sure : Prop} (lazy : sure → plan.isLazy = true) :
    ∃ still, plan.source.Tells (Shows c contents among) among sure rows still := by
  induction plan generalizing rows with
  | rows schema list =>
    cases means
    exact ⟨_, Source.ofRows_answers list⟩
  | scan of =>
    cases means
    exact ⟨_, Source.ofTable_tells of reads (within of.table (by simp [tables]))⟩
  | filter condition child ih =>
    obtain ⟨all, meant, same⟩ := Except.bind_eq_ok means
    cases same
    obtain ⟨still, tells⟩ := ih reads within meant lazy
    exact ⟨_, Source.filter_answers tells condition⟩
  | join condition left right ih ih' =>
    obtain ⟨ls, meant, rest⟩ := Except.bind_eq_ok means
    obtain ⟨rs, meant', same⟩ := Except.bind_eq_ok rest
    cases same
    have both : sure → left.isLazy = true ∧ right.isLazy = true := fun sure => Bool.and_eq_true_iff.mp (lazy sure)
    obtain ⟨still, tells⟩ := ih reads.1 (fun table here => within table (List.mem_append_left _ here)) meant
      fun sure => (both sure).1
    obtain ⟨still', tells'⟩ := ih' reads.2 (fun table here => within table (List.mem_append_right _ here)) meant'
      fun sure => (both sure).2
    have joined := Source.join_answers tells tells' condition (left.schema ++ right.schema)
    rw [Source.Joining.map_allPairs] at joined
    exact ⟨_, joined⟩
  | aggregate grouping child ih =>
    obtain ⟨all, meant, summarised⟩ := Except.bind_eq_ok means
    have unsure : ¬sure := fun sure => absurd (lazy sure) (by simp [isLazy])
    obtain ⟨still, tells⟩ := ih reads.2 within meant fun sure => absurd sure unsure
    have conform := reads.2.meant_meaning fun table here => suit table (within table here)
    rw [meant] at conform
    exact ⟨_, Source.aggregate_answers tells reads.1 conform summarised unsure fun _ _ => .inl rfl⟩
  | insert table txn child => exact reads.elim
  | delete txn child => exact reads.elim

end Plan

end RowStore
