import RowStore.Proofs.Evaluation
/-!
# Going on after a page could not be had

A plan that draws rows gets pages in one way only, to read them. Whatever other way there is to get the same
pages, and whichever of them cannot be had and for what reason, nobody loses a row who asks again: what is
answered is what would have been answered if the calls that failed had not been made.
-/

namespace RowStore

open Engine

/-! ### Ways to get pages -/

/-- A way to get a page for a transaction that reads it. -/
abbrev Supply := TxnId → PageId → Action Page

def Engine.supply : Supply := fun txn p => getPage txn p .shared

namespace FileScan

variable (supply : Supply)

/-- `advance`, with another way to get pages. -/
def advanceFrom : List Nat → Step FileScan (Option Row)
  | [] => pure none
  | number :: rest => do
    let s ← Step.here
    let page ← Step.engine (supply s.txn ⟨s.table, number⟩)
    match page.rows with
    | [] => do
      Step.update fun s => { s with nextPage := number + 1 }
      advanceFrom rest
    | row :: rows => do
      Step.update fun s => { s with nextPage := number + 1, pending := rows }
      return some row

def nextFrom : Step FileScan (Option Row) := do
  let s ← Step.here
  match s.pending with
  | row :: rows => do
    Step.update fun s => { s with pending := rows }
    return some row
  | [] => do
    let e ← Step.theEngine
    advanceFrom supply (List.range' s.nextPage (e.pagesOf s.file - s.nextPage))

theorem advanceFrom_supply (numbers : List Nat) : advanceFrom Engine.supply numbers = advance numbers := by
  induction numbers with
  | nil => rfl
  | cons number rest ih =>
    rw [advanceFrom, advance, ih]
    rfl

theorem advanceFrom_cons (s : FileScan) (e : Engine) (number : Nat) (rest : List Nat) :
    advanceFrom supply (number :: rest) (s, e) =
      (do
        let page ← Step.engine (supply s.txn ⟨s.table, number⟩)
        match page.rows with
        | [] => do
          Step.update fun s => { s with nextPage := number + 1 }
          advanceFrom supply rest
        | row :: rows => do
          Step.update fun s => { s with nextPage := number + 1, pending := rows }
          return some row : Step FileScan (Option Row)) (s, e) := rfl

theorem nextFrom_of_rowless {s : FileScan} {e : Engine} (rowless : s.pending = []) :
    nextFrom supply (s, e) = advanceFrom supply (s.ahead e) (s, e) := by
  show (match s.pending with
    | row :: rows => _
    | [] => _ : Step FileScan (Option Row)) (s, e) = _
  rw [rowless]
  rfl

theorem nextFrom_of_pending {s : FileScan} {e : Engine} {row : Row} {rows : List Row}
    (pending : s.pending = row :: rows) :
    nextFrom supply (s, e) = .ok (some row) ({ s with pending := rows }, e) := by
  show (match s.pending with
    | row :: rows => _
    | [] => _ : Step FileScan (Option Row)) (s, e) = _
  rw [pending]
  rfl

theorem nextFrom_supply : nextFrom Engine.supply = next := by
  funext ⟨s, e⟩
  cases pending : s.pending with
  | nil => rw [nextFrom_of_rowless _ pending, next_of_rowless pending, advanceFrom_supply]
  | cons row rows => rw [nextFrom_of_pending _ pending, next_of_pending pending]

end FileScan

def Source.ofTableFrom (supply : Supply) (of : ScanOf) : Source :=
  { ofTable of with
    fetch := (do
      match ← Step.here with
      | none => return none
      | some scan => do
        let row ← Step.within (fun _ => scan) (fun _ scan => some scan) (FileScan.nextFrom supply)
        return row.map (·.under of.schema) : Step (Option FileScan) (Option Row)) }

theorem Source.ofTableFrom_supply (of : ScanOf) : ofTableFrom Engine.supply of = ofTable of := by
  rw [ofTableFrom, FileScan.nextFrom_supply]
  rfl

namespace Plan

/-- The source of the plan when its scans get their pages in another way. -/
def sourceFrom (supply : Supply) : Plan → Source
  | .rows _ list => .ofRows list
  | .scan of => .ofTableFrom supply of
  | .filter condition child => .filter condition (child.sourceFrom supply)
  | .join condition left right =>
      .join condition (left.schema ++ right.schema) (left.sourceFrom supply) (right.sourceFrom supply)
  | .aggregate grouping child => .aggregate grouping (child.sourceFrom supply)
  | .insert table txn child =>
      .change "Inserted" (fun row => do let _ ← Engine.insert txn table row) (child.sourceFrom supply)
  | .delete txn child =>
      .change "Deleted" (fun row => do let _ ← Engine.delete txn row.location) (child.sourceFrom supply)

theorem sourceFrom_supply (plan : Plan) : plan.sourceFrom Engine.supply = plan.source := by
  induction plan with
  | rows schema list => rfl
  | scan of => exact Source.ofTableFrom_supply of
  | filter condition child ih => rw [sourceFrom, source, ih]
  | join condition left right ih ih' => rw [sourceFrom, source, ih, ih']
  | aggregate grouping child ih => rw [sourceFrom, source, ih]
  | insert table txn child ih => rw [sourceFrom, source, ih]
  | delete txn child ih => rw [sourceFrom, source, ih]

/-- The plan is built of rows, scans, filters and joins. -/
def draws : Plan → Bool
  | .rows _ _ => true
  | .scan _ => true
  | .filter _ child => child.draws
  | .join _ left right => left.draws && right.draws
  | _ => false

end Plan

/-- Wherever the condition holds of the engine, the pages with the stored rows are got in this way, each or a
fault among those, and it holds then. -/
structure Supplies (supply : Supply) (shows : Engine → Prop) (faults : Fault → Prop)
    (stored : TableId → List (List Row)) (scans : List ScanOf) : Prop where
  pages : ∀ of ∈ scans, ∀ e, shows e → e.pagesOf of.entry.file = (stored of.table).length
  sizes : ∀ of ∈ scans, ∀ e, shows e → ∀ rows ∈ stored of.table, rows.length ≤ slotLimit e.settings
  get : ∀ of ∈ scans, ∀ number rows, (stored of.table)[number]? = some rows → ∀ e, shows e →
    Ensures (supply of.txn ⟨of.table, number⟩) e fun
      | .ok page, e' => shows e' ∧ page.rows = rows
      | .error fault, e' => shows e' ∧ faults fault

section

variable {supply : Supply} {shows : Engine → Prop} {faults : Fault → Prop} {stored : TableId → List (List Row)}
  {scans : List ScanOf}

theorem Supplies.supplies_of_subset {fewer : List ScanOf} (supplies : Supplies supply shows faults stored scans)
    (among : ∀ of ∈ fewer, of ∈ scans) : Supplies supply shows faults stored fewer where
  pages of here := supplies.pages of (among of here)
  sizes of here := supplies.sizes of (among of here)
  get of here := supplies.get of (among of here)

namespace FileScan

/-- The scan has still to give these of the stored rows. -/
structure Holds (of : ScanOf) (stored : List (List Row)) (rest : List Row) (s : FileScan) : Prop where
  file : s.file = of.entry.file
  table : s.table = of.table
  txn : s.txn = of.txn
  still : s.pending ++ (stored.drop s.nextPage).flatten = rest
  suffix : rest <:+ stored.flatten

theorem holds_start (of : ScanOf) (stored : List (List Row)) :
    (start of.entry.file of.table of.txn).Holds of stored stored.flatten :=
  ⟨rfl, rfl, rfl, rfl, List.suffix_refl _⟩

variable {of : ScanOf} {rest : List Row} {s : FileScan} {e : Engine}
  (supplies : Supplies supply shows faults stored scans) (here : of ∈ scans)

include supplies here

theorem advanceFrom_plain (shown : shows e) (holds : s.Holds of (stored of.table) rest) (rowless : s.pending = [])
    (pages : Nat) (more : pages = (stored of.table).length - s.nextPage) :
    Ensures (advanceFrom supply (List.range' s.nextPage pages)) (s, e)
      (Plain shows (fun fault _ => faults fault) True (.ok rest.head?) (Holds of (stored of.table) rest.tail)
        (Holds of (stored of.table) rest)) := by
  obtain ⟨file, table, txn, still, suffix⟩ := holds
  rw [rowless, List.nil_append] at still
  induction pages generalizing s e with
  | zero =>
    rw [List.drop_eq_nil_of_le (by omega)] at still
    obtain rfl : [] = rest := still
    refine ⟨shown, .inl ⟨rfl, file, table, txn, ?_, suffix⟩⟩
    show s.pending ++ ((stored of.table).drop s.nextPage).flatten = []
    rw [rowless, List.drop_eq_nil_of_le (by omega)]
    rfl
  | succ pages ih =>
    have inside : s.nextPage < (stored of.table).length := by omega
    have split := List.drop_eq_getElem_cons inside
    have found := List.getElem?_eq_getElem inside
    generalize (stored of.table)[s.nextPage] = stocked at split found
    rw [split, List.flatten_cons] at still
    have got := supplies.get of here s.nextPage stocked found e shown
    rw [← txn, ← table] at got
    rw [List.range'_succ]
    refine .congr (advanceFrom_cons ..) ((got.engine_step (s := s)).bind ?_ ?_)
    · rintro page ⟨s₁, e₁⟩ ⟨same, shown₁, rows⟩
      obtain rfl : s₁ = s := same
      rw [← rows] at still
      cases found : page.rows with
      | nil =>
        rw [found, List.nil_append] at still
        have fewer : pages = (stored of.table).length - (s₁.nextPage + 1) := by omega
        exact .congr rfl (ih (s := { s₁ with nextPage := s₁.nextPage + 1 }) shown₁ rowless fewer file table txn still)
      | cons row later =>
        rw [found] at still
        obtain rfl := still
        refine ⟨shown₁, .inl ⟨rfl, file, table, txn, rfl, ?_⟩⟩
        exact (List.suffix_cons row _).trans suffix
    · rintro fault ⟨s₁, e₁⟩ ⟨same, shown₁, given⟩
      obtain rfl : s₁ = s := same
      refine ⟨shown₁, .inr ⟨⟨fault, rfl, given⟩, fun _ => ⟨file, table, txn, ?_, suffix⟩⟩⟩
      rw [rowless, split]
      exact still

theorem nextFrom_plain (shown : shows e) (holds : s.Holds of (stored of.table) rest) :
    Ensures (nextFrom supply) (s, e)
      (Plain shows (fun fault _ => faults fault) True (.ok rest.head?) (Holds of (stored of.table) rest.tail)
        (Holds of (stored of.table) rest)) := by
  cases pending : s.pending with
  | nil =>
    have pages := supplies.pages of here e shown
    rw [← holds.file] at pages
    refine .congr (nextFrom_of_rowless supply pending) ?_
    rw [ahead, pages]
    exact advanceFrom_plain supplies here shown holds pending _ rfl
  | cons row rows =>
    obtain ⟨file, table, txn, still, suffix⟩ := holds
    rw [pending] at still
    obtain rfl := still
    rw [Ensures, nextFrom_of_pending supply pending]
    exact ⟨shown, .inl ⟨rfl, file, table, txn, rfl, (List.suffix_cons row _).trans suffix⟩⟩

end FileScan

theorem length_flatten_le {pages : List (List Row)} {most : Nat} (sizes : ∀ rows ∈ pages, rows.length ≤ most) :
    pages.flatten.length ≤ pages.length * most := by
  induction pages with
  | nil => exact Nat.zero_le _
  | cons rows pages ih =>
    have first := sizes rows List.mem_cons_self
    have later := ih fun rows among => sizes rows (List.mem_cons_of_mem _ among)
    rw [List.flatten_cons, List.length_append, List.length_cons, Nat.succ_mul]
    omega

theorem Source.ofTableFrom_answers (supplies : Supplies supply shows faults stored scans) {of : ScanOf}
    (here : of ∈ scans) :
    (ofTableFrom supply of).Answers shows (fun fault _ => faults fault) True
      ((stored of.table).flatten.map (·.under of.schema))
      fun rest (state : Option FileScan) => ∃ scan read, state = some scan ∧
        scan.Holds of (stored of.table) read ∧ rest = read.map (·.under of.schema) where
  start s e shown := ⟨shown, .inl ⟨rfl, _, _, rfl, FileScan.holds_start of _, rfl⟩⟩
  fetch rest s e still shown := by
    obtain ⟨scan, read, rfl, holds, rfl⟩ := still
    have drawn : Ensures (Step.within (fun _ => scan) (fun _ scan => some scan) (FileScan.nextFrom supply))
        (some scan, e) (Plain shows (fun fault _ => faults fault) True (.ok read.head?)
          (fun state => ∃ scan, state = some scan ∧ scan.Holds of (stored of.table) read.tail)
          fun state => ∃ scan, state = some scan ∧ scan.Holds of (stored of.table) read) :=
      (FileScan.nextFrom_plain supplies here shown holds).plain_within (fun scan' holds' => ⟨scan', rfl, holds'⟩)
        fun scan' holds' => ⟨scan', rfl, holds'⟩
    refine .congr rfl (drawn.plain_bind ?_ ?_)
    · rintro state e' shown' ⟨scan', rfl, holds'⟩
      refine ⟨shown', .inl ⟨?_, scan', read.tail, rfl, holds', List.map_tail.symm⟩⟩
      rw [List.head?_map]
    · rintro state ⟨scan', rfl, holds'⟩
      exact ⟨scan', read, rfl, holds', rfl⟩
  replay again same := absurd same (by simp [ofTableFrom, ofTable])
  limit := .inr fun e shown => by
    have pages := supplies.pages of here e shown
    have most : (stored of.table).flatten.length ≤ (ofTableFrom supply of).limit e := by
      refine Nat.le_trans (length_flatten_le (supplies.sizes of here e shown)) (Nat.mul_le_mul_right _ ?_)
      rw [pages]
      omega
    refine ⟨by rwa [List.length_map], ?_⟩
    rintro _ state ⟨scan, read, rfl, holds, rfl⟩
    rw [List.length_map]
    exact Nat.le_trans holds.suffix.length_le most

/-- Nothing can be wrong with what a plan means that draws rows. -/
theorem Plan.meaning_of_draws {plan : Plan} (draws : plan.draws = true) (contents : TableId → List Row) :
    ∃ rows, plan.meaning contents = .ok rows := by
  induction plan with
  | rows schema list => exact ⟨_, rfl⟩
  | scan of => exact ⟨_, rfl⟩
  | filter condition child ih =>
    obtain ⟨all, means⟩ := ih draws
    rw [meaning, means]
    exact ⟨_, rfl⟩
  | join condition left right ih ih' =>
    obtain ⟨both, both'⟩ := Bool.and_eq_true_iff.mp draws
    obtain ⟨ls, means⟩ := ih both
    obtain ⟨rs, means'⟩ := ih' both'
    rw [meaning, means, means']
    exact ⟨_, rfl⟩
  | _ => exact absurd draws (by simp [Plan.draws])

/-- A plan that draws rows answers those that it means, however its pages are got. -/
theorem Plan.sourceFrom_answers {plan : Plan} (draws : plan.draws = true) (supply : Supply) {rows : List Row}
    (means : plan.meaning (fun table => (stored table).flatten) = .ok rows) :
    ∃ still, ∀ {shows : Engine → Prop} {faults : Fault → Prop}, Supplies supply shows faults stored plan.scans →
      (plan.sourceFrom supply).Answers shows (fun fault _ => faults fault) True rows still := by
  induction plan generalizing rows with
  | rows schema list =>
    cases means
    exact ⟨_, fun _ => Source.ofRows_answers list⟩
  | scan of =>
    cases means
    exact ⟨_, fun supplies => Source.ofTableFrom_answers supplies (List.mem_singleton_self of)⟩
  | filter condition child ih =>
    obtain ⟨all, meant, same⟩ := Except.bind_eq_ok means
    cases same
    obtain ⟨still, answers⟩ := ih draws meant
    exact ⟨_, fun supplies => Source.filter_answers (answers supplies) condition⟩
  | join condition left right ih ih' =>
    obtain ⟨ls, meant, rest⟩ := Except.bind_eq_ok means
    obtain ⟨rs, meant', same⟩ := Except.bind_eq_ok rest
    cases same
    obtain ⟨both, both'⟩ := Bool.and_eq_true_iff.mp draws
    obtain ⟨still, answers⟩ := ih both meant
    obtain ⟨still', answers'⟩ := ih' both' meant'
    rw [← Source.Joining.map_allPairs]
    refine ⟨_, fun supplies => Source.join_answers (answers (supplies.supplies_of_subset ?_))
      (answers' (supplies.supplies_of_subset ?_))
      condition (left.schema ++ right.schema)⟩
    · exact fun of here => List.mem_append_left _ here
    · exact fun of here => List.mem_append_right _ here
  | _ => exact absurd draws (by simp [Plan.draws])

end

/-! ### Calls that fail -/

/-- A call has failed: it has not given an answer, and not because the plan is not open or has no more rows. -/
def Reply.isFailure (reply : Except Fault Reply) : Bool :=
  (Reply.fault? reply).any fun
    | .notOpen => false
    | .noMoreRows => false
    | _ => true

theorem Reply.isFailure_of_fault? {reply : Except Fault Reply} {fault : Fault}
    (reported : Reply.fault? reply = some fault) (isOpen : fault ≠ .notOpen) (more : fault ≠ .noMoreRows) : Reply.isFailure reply = true := by
  rw [isFailure, reported, Option.any_some]
  split
  · exact absurd rfl isOpen
  · exact absurd rfl more
  · rfl

/-- What is told to a call is not that it has failed. -/
theorem Use.isFailure_told (rows : List Row) (replays : Bool) {use : Use} (call : use.isCall = true)
    (place : Option (List Row)) : Reply.isFailure (use.told rows replays place).1 = false := by
  cases use with
  | start => rfl
  | close => rfl
  | rewind =>
    cases place with
    | none => cases replays <;> rfl
    | some rest => rfl
  | hasNext => cases place <;> rfl
  | next =>
    cases place with
    | none => rfl
    | some rest => cases rest <;> rfl
  | fetch => exact absurd call (by simp [isCall])
  | take count => exact absurd call (by simp [isCall])
  | collect => exact absurd call (by simp [isCall])

namespace Cursor

variable {source : Source}

/-- The replies to calls that are made one after another, each on the engine that there is then, and the engines
that they leave. -/
def outcomes (cur : Cursor source) : List (Engine × Use) → List (Except Fault Reply × Engine)
  | [] => []
  | (e, use) :: rest =>
    let (reply, cur', e') := outcome use.act (cur, e)
    (reply, e') :: cur'.outcomes rest

def replies (cur : Cursor source) (calls : List (Engine × Use)) : List (Except Fault Reply) :=
  (cur.outcomes calls).map Prod.fst

/-- The calls that did not fail, with the replies to them. -/
def granted (cur : Cursor source) (calls : List (Engine × Use)) : List (Use × Except Fault Reply) :=
  ((calls.map Prod.snd).zip (cur.replies calls)).filter fun answered => !Reply.isFailure answered.2

section

variable {cur cur' : Cursor source} {e e' : Engine} {use : Use} {reply : Except Fault Reply}
  (came : outcome use.act (cur, e) = (reply, cur', e')) (rest : List (Engine × Use))

include came

theorem outcomes_cons : cur.outcomes ((e, use) :: rest) = (reply, e') :: cur'.outcomes rest := by
  rw [outcomes, came]

theorem replies_cons : cur.replies ((e, use) :: rest) = reply :: cur'.replies rest := by
  rw [replies, outcomes_cons came, List.map_cons, replies]

theorem granted_cons : cur.granted ((e, use) :: rest) =
    if Reply.isFailure reply then cur'.granted rest else (use, reply) :: cur'.granted rest := by
  rw [granted, replies_cons came, List.map_cons, List.zip_cons_cons, List.filter_cons]
  cases Reply.isFailure reply <;> rfl

end

variable {shows : Engine → Prop} {faults : Fault → Prop} {rows : List Row} {still : List Row → source.State → Prop}
  {cur : Cursor source} {place : Option (List Row)}

/-- A call that fails leaves the cursor where it was, so the other calls are answered as if they were alone. -/
theorem granted_told (answers : source.Answers shows (fun fault _ => faults fault) True rows still)
    (apart : ∀ fault, faults fault → fault ≠ .notOpen ∧ fault ≠ .noMoreRows) (stands : cur.Stands still place)
    (calls : List (Engine × Use)) (each : ∀ call ∈ calls, shows call.1 ∧ call.2.isCall = true) :
    (cur.granted calls).map Prod.snd =
        Use.tellings rows source.replay.isSome place ((cur.granted calls).map Prod.fst) ∧
      ∀ reply ∈ cur.replies calls, Reply.isFailure reply = true →
        ∃ fault, Reply.fault? reply = some fault ∧ faults fault := by
  induction calls generalizing cur place with
  | nil => exact ⟨rfl, by simp [replies, outcomes]⟩
  | cons call rest ih =>
    obtain ⟨e, use⟩ := call
    obtain ⟨shown, isCall⟩ := each _ List.mem_cons_self
    have each' := fun call later => each call (List.mem_cons_of_mem _ later)
    have told : use ≠ .fetch := by
      rintro rfl
      exact absurd isCall (by simp [Use.isCall])
    obtain ⟨-, heeds⟩ := (act_heeds answers use told stands shown).outcome
    generalize came : outcome use.act (cur, e) = done at heeds
    obtain ⟨reply, cur', e'⟩ := done
    rw [granted_cons came, replies_cons came]
    rcases heeds with ⟨same, stands'⟩ | ⟨fault, reported, given, stays⟩
    · obtain rfl : reply = _ := same
      obtain ⟨later, failed⟩ := ih stands' each'
      have granted := use.isFailure_told rows source.replay.isSome isCall place
      rw [granted]
      refine ⟨congrArg (_ :: ·) later, ?_⟩
      rw [List.forall_mem_cons]
      exact ⟨fun failure => absurd (granted.symm.trans failure) (by simp), failed⟩
    · obtain ⟨later, failed⟩ := ih (stays trivial isCall) each'
      rw [Reply.isFailure_of_fault? reported (apart fault given).1 (apart fault given).2]
      refine ⟨later, ?_⟩
      rw [List.forall_mem_cons]
      exact ⟨fun _ => ⟨fault, reported, given⟩, failed⟩

end Cursor

/-! ### Plans -/

namespace Engine

def rowsByPage (e : Engine) (table : TableId) : List (List Row) :=
  (List.range (e.pagesIn table)).map fun number => e.rowsOn ⟨table, number⟩

/-- The engine has the tables of the catalog, and those among them have the stored rows. -/
structure Stores (c : Catalog) (stored : TableId → List (List Row)) (among : List TableId) (e : Engine) : Prop where
  coherent : e.Coherent
  catalog : e.catalog = c
  rows : ∀ table ∈ among, e.rowsByPage table = stored table

variable {c : Catalog} {stored : TableId → List (List Row)} {among : List TableId} {e e' : Engine}

theorem Stores.stores_of_browsed {txn : TxnId} (stores : Stores c stored among e) (browsed : Browsed txn e e') :
    Stores c stored among e' where
  coherent := browsed.coherent_after
  catalog := browsed.swapped.to_sameFiles.catalog.trans stores.catalog
  rows table here := by
    rw [← stores.rows table here, rowsByPage, rowsByPage, browsed.swapped.to_sameFiles.pagesIn_eq]
    simp only [rowsOn, browsed.swapped.view?_eq]

theorem Stores.rowsOn_eq (stores : Stores c stored among e) {table : TableId} (here : table ∈ among) {number : Nat}
    {rows : List Row} (found : (stored table)[number]? = some rows) :
    number < e.pagesIn table ∧ e.rowsOn ⟨table, number⟩ = rows := by
  rw [← stores.rows table here, rowsByPage, List.getElem?_map, Option.map_eq_some_iff] at found
  obtain ⟨_, inside, rows⟩ := found
  obtain ⟨below, rfl⟩ := List.getElem?_eq_some_iff.mp inside
  rw [List.length_range] at below
  rw [List.getElem_range] at rows
  exact ⟨below, rows⟩

/-- What may go wrong when a page of a table is fetched. -/
def Interrupts (fault : Fault) : Prop := fault = .poolFull ∨ ∃ txn, fault = .aborted txn

/-- Pages are got wherever a condition holds that says that the rows are stored and that reading them keeps. -/
theorem supply_supplies {shows : Engine → Prop} (stores : ∀ e, shows e → Stores c stored among e)
    (keeps : ∀ e e' txn, shows e → Browsed txn e e' → shows e') {scans : List ScanOf}
    (found : ∀ of ∈ scans, c.find? of.table = some of.entry) (read : ∀ of ∈ scans, of.table ∈ among) :
    Supplies Engine.supply shows Interrupts stored scans where
  pages of here e shown := by
    have stores := stores e shown
    have known := found of here
    rw [← stores.catalog] at known
    rw [stores.coherent.pagesOf_eq_pagesIn known, ← stores.rows of.table (read of here), rowsByPage, List.length_map,
      List.length_range]
  sizes of here e shown rows among := by
    have stores := stores e shown
    rw [← stores.rows of.table (read of here)] at among
    obtain ⟨number, -, rfl⟩ := List.mem_map.mp among
    rw [Engine.rowsOn]
    cases seen : e.view? ⟨of.table, number⟩ with
    | none => exact Nat.zero_le _
    | some page => exact stores.coherent.length_rows_le seen
  get of here number rows stock e shown := by
    have stores := stores e shown
    obtain ⟨inside, same⟩ := stores.rowsOn_eq (read of here) stock
    refine (getPage_browses stores.coherent of.txn ⟨of.table, number⟩ .shared).mono ?_
    rintro (fault | page) e' got
    · obtain ⟨browsed, reason⟩ := got
      refine ⟨keeps e e' of.txn shown browsed, ?_⟩
      rcases reason with (rfl | ⟨rfl, -⟩) | ⟨absent, -⟩
      · exact .inr ⟨of.txn, rfl⟩
      · exact .inl rfl
      · have known := found of here
        rw [← stores.catalog] at known
        obtain ⟨f, file, -, -⟩ := stores.coherent.opened known
        rw [pagesIn, file] at inside
        obtain ⟨page, seen, -⟩ := stores.coherent.exists_view (p := ⟨of.table, number⟩) file inside
        exact absurd (absent.symm.trans seen) (by simp)
    · obtain ⟨browsed, seen, -⟩ := got
      rw [Engine.rowsOn, seen] at same
      exact ⟨keeps e e' of.txn shown browsed, same⟩

end Engine

namespace Plan

theorem Reads.find?_of_mem_scans {c : Catalog} {plan : Plan} (reads : plan.Reads c) :
    ∀ of ∈ plan.scans, c.find? of.table = some of.entry ∧ of.table ∈ plan.tables := by
  induction plan with
  | rows schema list => exact fun of here => absurd here (by simp [Plan.scans])
  | scan of =>
    intro other here
    rw [List.mem_singleton.mp here]
    exact ⟨reads, List.mem_singleton_self _⟩
  | filter condition child ih => exact ih reads
  | join condition left right ih ih' =>
    intro of here
    rcases List.mem_append.mp here with here | here
    · obtain ⟨found, read⟩ := ih reads.1 of here
      exact ⟨found, List.mem_append_left _ read⟩
    · obtain ⟨found, read⟩ := ih' reads.2 of here
      exact ⟨found, List.mem_append_right _ read⟩
  | aggregate grouping child ih => exact ih reads.2
  | insert table txn child => exact reads.elim
  | delete txn child => exact reads.elim

theorem replay_of_draws {plan : Plan} (draws : plan.draws = true) (supply : Supply) :
    (plan.sourceFrom supply).replay.isSome = false := by
  cases plan with
  | aggregate grouping child => exact absurd draws (by simp [Plan.draws])
  | _ => rfl

/-- A plan that is built of rows, scans, filters and joins means the same rows as long as its tables have the same
rows on their pages. However the pages are got, and whichever of them cannot be had, the calls that did not fail
are answered as the meaning says, as if the others had not been made, and a call fails only with what a page could
not be had for. The plan itself gets its pages in such a way, where memory may be full or a lock may not be had. -/
theorem rows_survive_failed_fetches (plan : Plan) (draws : plan.draws = true) :
    plan.sourceFrom Engine.supply = plan.source ∧
    (∀ c stored, plan.Reads c →
      Supplies Engine.supply (Engine.Stores c stored plan.tables) Engine.Interrupts stored plan.scans) ∧
    ∀ stored, ∃ rows, plan.meaning (fun table => (stored table).flatten) = .ok rows ∧
      ∀ supply shows faults, Supplies supply shows faults stored plan.scans →
        (∀ fault, faults fault → fault ≠ .notOpen ∧ fault ≠ .noMoreRows) →
        ∀ calls : List (Engine × Use), (∀ call ∈ calls, shows call.1 ∧ call.2.isCall = true) →
          let cur := Cursor.new (plan.sourceFrom supply)
          (cur.granted calls).map Prod.snd = Use.tellings rows false none ((cur.granted calls).map Prod.fst) ∧
            ∀ reply ∈ cur.replies calls, Reply.isFailure reply = true →
              ∃ fault, Reply.fault? reply = some fault ∧ faults fault := by
  refine ⟨plan.sourceFrom_supply, ?_, ?_⟩
  · intro c stored reads
    exact supply_supplies (fun _ => id) (fun _ _ _ stores => stores.stores_of_browsed) (fun of here =>
      (reads.find?_of_mem_scans of here).1)
      fun of here => (reads.find?_of_mem_scans of here).2
  · intro stored
    obtain ⟨rows, means⟩ := meaning_of_draws draws fun table => (stored table).flatten
    refine ⟨rows, means, ?_⟩
    intro supply shows faults supplies apart calls each cur
    obtain ⟨still, answers⟩ := sourceFrom_answers draws supply means
    have told := Cursor.granted_told (answers supplies) apart (show cur.Stands still none from rfl) calls each
    rw [replay_of_draws draws supply] at told
    exact told

/-- A page cannot be read whenever an even number of pages has been used. -/
def flaky : Supply := fun txn p e =>
  if e.recency.clock % 2 = 0 then .error (.file .shortRead) e else Engine.supply txn p e

/-- Every two numbers of which the first is greater. -/
def descents : Plan :=
  let numbers : Plan := .scan ⟨⟨1⟩, ⟨0, ⟨[⟨some "n", .int⟩]⟩, "t"⟩, "t", ⟨2⟩⟩
  .join ⟨0, .gt, 0⟩ numbers numbers

/-- Four numbers are put in, on two pages. -/
def fourNumbers : List Command :=
  [.openPlan "a" (.insert ⟨1⟩ ⟨1⟩ (.rows ⟨[⟨none, .int⟩]⟩ [[.int 4], [.int 2], [.int 9], [.int 1]])),
    .usePlan "a" .start, .usePlan "a" .next, .step (.commit ⟨1⟩)]

def descentRows : List Row :=
  [[.int 4, .int 2], [.int 4, .int 1], [.int 2, .int 1], [.int 9, .int 4], [.int 9, .int 2], [.int 9, .int 1]].map
    fun values => ⟨⟨[⟨some "t.n", .int⟩, ⟨some "t.n", .int⟩]⟩, values, none⟩

def sevenCalls : List Use := [.start, .hasNext, .hasNext, .next, .next, .next, .next]

/-- The second and the sixth call fail, and the others are answered as if they were alone. -/
theorem descents_survive_unreadable_pages :
    let calls := sevenCalls.map ((Database.numbers.archive.session.after fourNumbers).engine, ·)
    let cur := Cursor.new (descents.sourceFrom flaky)
    (cur.replies calls).map Reply.isFailure = [false, true, false, false, false, true, false] ∧
      (cur.granted calls).map Prod.snd =
        Use.tellings descentRows false none [.start, .hasNext, .next, .next, .next] := by
  have steady := Database.numbers.archive.session_steady.steady_after fourNumbers
  have reads : descents.Reads Database.numbers.archive.engine.catalog := ⟨by cbv, by cbv⟩
  obtain ⟨-, supplied, survives⟩ := rows_survive_failed_fetches descents rfl
  let stored := (Database.numbers.archive.session.after fourNumbers).engine.rowsByPage
  have supplies := supplied Database.numbers.archive.engine.catalog stored reads
  have flakily : Supplies flaky
      (Engine.Stores Database.numbers.archive.engine.catalog stored descents.tables)
      (fun fault => fault = .file .shortRead ∨ Engine.Interrupts fault) stored descents.scans := by
    refine ⟨supplies.pages, supplies.sizes, ?_⟩
    intro of here number rows stock e stores
    by_cases even : e.recency.clock % 2 = 0
    · have failed : flaky of.txn ⟨of.table, number⟩ e = .error (.file .shortRead) e := if_pos even
      rw [Ensures, failed]
      exact ⟨stores, .inl rfl⟩
    · have got : flaky of.txn ⟨of.table, number⟩ e = Engine.supply of.txn ⟨of.table, number⟩ e := if_neg even
      refine .congr got ((supplies.get of here number rows stock e stores).mono ?_)
      rintro (fault | page) e' came
      · exact ⟨came.1, .inr came.2⟩
      · exact came
  obtain ⟨rows, means, granted⟩ := survives stored
  have means' : descents.meaning (fun table =>
      ((Database.numbers.archive.session.after fourNumbers).engine.rowsByPage table).flatten) = .ok descentRows := by cbv
  cases means.symm.trans means'
  have apart : ∀ fault, fault = .file .shortRead ∨ Engine.Interrupts fault →
      fault ≠ .notOpen ∧ fault ≠ .noMoreRows := by
    rintro fault (rfl | rfl | ⟨txn, rfl⟩) <;> simp
  have each : ∀ call ∈ sevenCalls.map ((Database.numbers.archive.session.after fourNumbers).engine, ·),
      Engine.Stores Database.numbers.archive.engine.catalog stored descents.tables call.1 ∧ call.2.isCall = true := by
    intro call among
    obtain ⟨use, here, rfl⟩ := List.mem_map.mp among
    refine ⟨⟨steady.ready.coherent, steady.ready.catalog, fun _ _ => rfl⟩, ?_⟩
    exact List.all_eq_true.mp (show sevenCalls.all Use.isCall = true from rfl) use here
  obtain ⟨told, -⟩ := granted flaky _ _ flakily apart _ each
  have answered : ((Cursor.new (descents.sourceFrom flaky)).granted (sevenCalls.map
      ((Database.numbers.archive.session.after fourNumbers).engine, ·))).map Prod.fst =
        [.start, .hasNext, .next, .next, .next] := by cbv
  rw [answered] at told
  refine ⟨?_, told⟩
  cbv

end Plan

end RowStore
