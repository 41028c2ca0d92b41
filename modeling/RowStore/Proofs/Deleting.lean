import RowStore.Proofs.Plan.Counting
import RowStore.Proofs.StableScan
/-!
# Deleting the rows that pass a test

A scan of a table gives its rows to a filter, and those that pass are deleted from the table while the scan goes on. The
scan holds the rows of the page that it has read, and none of them is deleted before it has been given; on the pages to
come nothing has been deleted. So the rows that are given are those that were there in the beginning, and the table is
left with those that do not pass.
-/

namespace RowStore

open Engine

namespace RowMap

variable {base m : RowMap} {accepts : RowId × List Value → Bool} {number : Nat} {seen rest : List (RowId × List Value)}

def without (m : RowMap) (rows : List RowId) : RowMap :=
  { m with rows := fun row => if row ∈ rows then none else m.rows row }

theorem without_nil (m : RowMap) : m.without [] = m := by
  ext1
  · rfl
  · rfl
  · rfl
  · funext row
    show (if row ∈ [] then none else m.rows row) = m.rows row
    exact if_neg List.not_mem_nil

theorem write_without (m : RowMap) (rows : List RowId) (row : RowId) :
    (m.without rows).write row none = m.without (rows ++ [row]) := by
  ext1
  · rfl
  · rfl
  · rfl
  · funext other
    show (if other = row then none else if other ∈ rows then none else m.rows other) =
      if other ∈ rows ++ [row] then none else m.rows other
    by_cases same : other = row
    · rw [if_pos same, if_pos (List.mem_append_right _ (List.mem_singleton.mpr same))]
    · rw [if_neg same]
      by_cases among : other ∈ rows
      · rw [if_pos among, if_pos (List.mem_append_left _ among)]
      · rw [if_neg among, if_neg]
        exact fun here => (List.mem_append.mp here).elim among fun last => same (List.mem_singleton.mp last)

theorem onPage_without (m : RowMap) (rows : List RowId) (number : Nat) :
    (m.without rows).onPage number = (m.onPage number).filter fun entry => entry.1 ∉ rows := by
  show List.filterMap _ _ = List.filter _ (List.filterMap _ _)
  rw [List.filter_filterMap]
  congr 1
  funext slot
  let row : RowId := ⟨⟨m.table, number⟩, slot⟩
  show (if row ∈ rows then none else m.rows row).map (fun values => (row, values)) =
    ((m.rows row).map fun values => (row, values)).filter fun entry => entry.1 ∉ rows
  cases m.rows row <;> by_cases among : row ∈ rows <;> simp [Option.filter_some, among]

theorem entries_without (m : RowMap) (rows : List RowId) :
    (m.without rows).entries = m.entries.filter fun entry => entry.1 ∉ rows := by
  show List.flatMap _ _ = List.filter _ (List.flatMap _ _)
  rw [List.filter_flatMap]
  exact List.flatMap_congr fun number _ => m.onPage_without rows number

theorem page_of_mem_before {entry : RowId × List Value} (among : entry ∈ base.before number) :
    entry.1.page.table = base.table ∧ entry.1.page.number < number := by
  obtain ⟨earlier, inside, here⟩ := List.mem_flatMap.mp among
  obtain ⟨page, -⟩ := (mem_onPage_iff base earlier entry.1 entry.2).mp here
  rw [page]
  exact ⟨rfl, List.mem_range.mp inside⟩

/-- The pages before that number have been read. Of the rows on them these have been dealt with, which means that those
that are accepted have been deleted, and the rest is still to come. -/
structure Sweeps (base : RowMap) (accepts : RowId × List Value → Bool) (number : Nat)
    (seen rest : List (RowId × List Value)) (m : RowMap) : Prop where
  order : seen ++ rest = base.before number
  left : m = base.without ((seen.filter accepts).map Prod.fst)

namespace Sweeps

theorem sweeps_start (base : RowMap) (accepts : RowId × List Value → Bool) : base.Sweeps accepts 0 [] [] base :=
  ⟨rfl, base.without_nil.symm⟩

/-- On the next page nothing has been deleted. -/
theorem sweeps_next_page (sweeps : base.Sweeps accepts number seen [] m) :
    base.Sweeps accepts (number + 1) seen (m.onPage number) m where
  left := sweeps.left
  order := by
    have order := sweeps.order
    rw [List.append_nil] at order
    rw [before_succ, order, sweeps.left, onPage_without, List.filter_eq_self.mpr]
    intro entry here
    refine decide_eq_true fun deleted => ?_
    obtain ⟨other, among, same⟩ := List.mem_map.mp deleted
    have earlier := (page_of_mem_before (order ▸ List.mem_of_mem_filter among)).2
    obtain ⟨page, -⟩ := (mem_onPage_iff base number entry.1 entry.2).mp here
    rw [same, page] at earlier
    exact Nat.lt_irrefl _ earlier

variable {entry : RowId × List Value}

theorem sweeps_refused (sweeps : base.Sweeps accepts number seen (entry :: rest) m) (refused : accepts entry = false) :
    base.Sweeps accepts number (seen ++ [entry]) rest m where
  order := by
    rw [List.append_assoc]
    exact sweeps.order
  left := by
    rw [List.filter_append, List.filter_cons_of_neg (by simp [refused]), List.filter_nil, List.append_nil]
    exact sweeps.left

theorem sweeps_accepted (sweeps : base.Sweeps accepts number seen (entry :: rest) m) (accepted : accepts entry = true) :
    base.Sweeps accepts number (seen ++ [entry]) rest (m.write entry.1 none) where
  order := by
    rw [List.append_assoc]
    exact sweeps.order
  left := by
    rw [List.filter_append, List.filter_cons_of_pos accepted, List.filter_nil, List.map_append, sweeps.left]
    exact base.write_without _ _

theorem entries_eq_filter (within : base.Within) (sweeps : base.Sweeps accepts number seen [] m)
    (past : base.pages ≤ number) :
    m.entries = base.entries.filter (fun entry => !accepts entry) ∧ seen = base.entries := by
  have order := sweeps.order
  rw [List.append_nil, within.before_past past] at order
  refine ⟨?_, order⟩
  rw [sweeps.left, entries_without, order]
  refine List.filter_congr fun entry here => ?_
  have held := ((within.lists_entries).mem_iff entry.1 entry.2).mp here
  cases accepted : accepts entry with
  | true =>
    have among : entry.1 ∈ (base.entries.filter accepts).map Prod.fst :=
      List.mem_map_of_mem (List.mem_filter.mpr ⟨here, accepted⟩)
    simp [among]
  | false =>
    have not_among : entry.1 ∉ (base.entries.filter accepts).map Prod.fst := by
      intro among
      obtain ⟨other, deleted, same⟩ := List.mem_map.mp among
      obtain ⟨there, accepted'⟩ := List.mem_filter.mp deleted
      have held' := ((within.lists_entries).mem_iff other.1 other.2).mp there
      rw [same, held.2] at held'
      have equal : other = entry := Prod.ext same (Option.some.inj held'.2).symm
      rw [equal, accepted] at accepted'
      exact absurd accepted' (by simp)
    simp [not_among]

end Sweeps

end RowMap

/-! ### Reading and deleting -/

/-- The rows that the scan holds of the page that it has read. -/
structure FileScan.Bears (of : ScanOf) (rest : List (RowId × List Value)) (s : FileScan) : Prop where
  file : s.file = of.entry.file
  own : s.table = of.table
  pending : s.pending = rest.map (Row.stored of.entry.schema)

/-- The transaction has come that far with the table from which it deletes. -/
structure ScanOf.Sweeping (of : ScanOf) (base : RowMap) (accepts : RowId × List Value → Bool) (number : Nat)
    (seen rest : List (RowId × List Value)) (e : Engine) : Prop where
  tidy : e.Tidy
  inHand : InHand of.txn of.table of.entry e
  sweeps : base.Sweeps accepts number seen rest (e.rowMap of.table of.entry)

namespace ScanOf.Sweeping

variable {base : RowMap} {accepts : RowId × List Value → Bool} {of : ScanOf} {number : Nat}
  {seen rest : List (RowId × List Value)} {entry : RowId × List Value} {e e' : Engine}

/-- What the scan answers when it goes on to the next row, which is then to be dealt with. -/
def Goes (of : ScanOf) (base : RowMap) (accepts : RowId × List Value → Bool) (seen : List (RowId × List Value)) :
    Except Fault (Option Row) → FileScan × Engine → Prop
  | .ok (some row), left => ∃ entry rest, row = Row.stored of.entry.schema entry ∧ left.1.Bears of rest ∧
      of.Sweeping base accepts left.1.nextPage seen (entry :: rest) left.2
  | .ok none, left => of.Sweeping base accepts left.1.nextPage seen [] left.2 ∧ base.pages ≤ left.1.nextPage
  | .error _, _ => True

theorem next_goes {s : FileScan} (sweeping : of.Sweeping base accepts s.nextPage seen rest e)
    (holds : s.Bears of rest) :
    Ensures FileScan.next (s, e) (Goes of base accepts seen) := by
  let m := e.rowMap of.table of.entry
  have pages : e.pagesOf of.entry.file = base.pages := congrArg RowMap.pages sweeping.sweeps.left
  have reads : Ensures FileScan.next (s, e) (FileScan.Reads
      (fun e' => ((e'.Tidy ∧ InHand of.txn of.table of.entry e') ∧ e'.rowMap of.table of.entry = m) ∧
        e'.pagesOf of.entry.file = e.pagesOf of.entry.file)
      (fun number pending => ∃ rest, pending = rest.map (Row.stored of.entry.schema) ∧
        base.Sweeps accepts number seen rest m) (e.pagesOf of.entry.file) s) := by
    refine Listed.next_reads holds.file holds.own (fun _ keeps => ⟨keeps.1.1, keeps.1.2.toListed⟩) ?_ ?_
      ⟨⟨sweeping.tidy, sweeping.inHand⟩, rfl⟩ ⟨rest, holds.pending, sweeping.sweeps⟩
    · rintro e₁ e₂ ⟨⟨-, inHand⟩, same⟩ glanced tidy
      exact ⟨⟨tidy, inHand.of_glanced glanced⟩, (inHand.rowMap_of_glanced glanced).trans same⟩
    · rintro e₁ number ⟨-, same⟩ - ⟨rest, none, sweeps⟩
      obtain rfl : rest = [] := List.map_eq_nil_iff.mp none.symm
      rw [same]
      exact ⟨_, rfl, sweeps.sweeps_next_page⟩
  refine reads.mono ?_
  rintro (fault | _ | row) left came
  · trivial
  · obtain ⟨-, ⟨⟨⟨tidy, inHand⟩, same⟩, -⟩, -, ⟨rest', none, sweeps⟩, past⟩ := came
    obtain rfl : rest' = [] := List.map_eq_nil_iff.mp none.symm
    exact ⟨⟨tidy, inHand, same ▸ sweeps⟩, pages ▸ past⟩
  · obtain ⟨alike, ⟨⟨⟨tidy, inHand⟩, same⟩, -⟩, rest', given, sweeps⟩ := came
    obtain ⟨entry, later, rfl, first, more⟩ := List.map_eq_cons_iff.mp given.symm
    exact ⟨entry, later, first.symm, ⟨alike.file.trans holds.file, alike.table.trans holds.own, more.symm⟩,
      tidy, inHand, same ▸ sweeps⟩

theorem sweeping_refused (sweeping : of.Sweeping base accepts number seen (entry :: rest) e)
    (refused : accepts entry = false) :
    of.Sweeping base accepts number (seen ++ [entry]) rest e :=
  ⟨sweeping.tidy, sweeping.inHand, sweeping.sweeps.sweeps_refused refused⟩

theorem delete_sweeps (sweeping : of.Sweeping base accepts number seen (entry :: rest) e)
    (accepted : accepts entry = true) :
    Ensures (Engine.delete of.txn (some entry.1)) e fun
      | .ok _, e' => of.Sweeping base accepts number (seen ++ [entry]) rest e'
      | .error _, _ => True := by
  have sweeps := sweeping.sweeps
  have own : entry.1.page.table = of.table := by
    have among : entry ∈ base.before number := sweeps.order ▸ List.mem_append_right _ List.mem_cons_self
    exact (RowMap.page_of_mem_before among).1.trans (congrArg RowMap.table sweeps.left).symm
  have fills := @delete_fills (fun _ => True) e sweeping.tidy of.txn (some entry.1) fun _ _ => trivial
  refine ((delete_unfolds of.txn (some entry.1) e sweeping.tidy).and fills).mono ?_
  rintro (fault | p) e' ⟨⟨tidy, effects⟩, done⟩
  · trivial
  · obtain ⟨_, ⟨⟩, -, e₁, glanced, filled⟩ := done
    have shelved := preserved_of_effects Shelved.shelved_of_effect effects sweeping.inHand.shelved
    refine ⟨tidy, (sweeping.inHand.of_glanced glanced).of_filled filled shelved, ?_⟩
    rw [filled.rowMap_write own, sweeping.inHand.rowMap_of_glanced glanced]
    exact sweeps.sweeps_accepted accepted

end ScanOf.Sweeping

/-! ### The operator -/

/-- The row says how many of the rows were accepted, and the table has only the others. -/
def RowMap.Counted (base : RowMap) (accepts : RowId × List Value → Bool) (row : Row) (m : RowMap) : Prop :=
  m.entries = base.entries.filter (fun entry => !accepts entry) ∧
    ∃ n : Int32, row.values = [.int n] ∧ n.toInt = (base.entries.filter accepts).length

namespace Source

variable {base : RowMap} {of : ScanOf} {condition : Condition} {seen rest : List (RowId × List Value)} {e : Engine}

/-- The condition on a row as it is read. -/
def passes (condition : Condition) (of : ScanOf) (entry : RowId × List Value) : Bool :=
  condition.accepts (Row.stored of.schema entry)

/-- So many rows have passed before. Those that have been passed by since then have not, and the one that is given
has. -/
def Finds (base : RowMap) (condition : Condition) (of : ScanOf) (passed : Nat) :
    Except Fault (Option Row) → Cursor (ofTable of) × Engine → Prop
  | .ok none, left => ∃ number seen, (seen.filter (passes condition of)).length = passed ∧
      of.Sweeping base (passes condition of) number seen [] left.2 ∧ base.pages ≤ number
  | .ok (some row), left => ∃ scan entry rest seen, left.1 = ⟨true, none, some scan⟩ ∧ scan.Bears of rest ∧
      row = Row.stored of.schema entry ∧ passes condition of entry = true ∧
      (seen.filter (passes condition of)).length = passed ∧
      of.Sweeping base (passes condition of) scan.nextPage seen (entry :: rest) left.2
  | .error _, _ => True

theorem find_sweeps (turns : Nat) {s : FileScan}
    (sweeping : of.Sweeping base (passes condition of) s.nextPage seen rest e) (holds : s.Bears of rest) :
    Ensures (Cursor.find condition.accepts turns) ((⟨true, none, some s⟩ : Cursor (ofTable of)), e)
      (Finds base condition of (seen.filter (passes condition of)).length) := by
  induction turns generalizing s seen rest e with
  | zero => trivial
  | succ turns ih =>
    refine (pull_ofTable (sweeping.next_goes holds)).bind ?_ fun _ _ _ => trivial
    rintro row ⟨_, e'⟩ ⟨fault | given, scan, same, rfl, goes⟩
    · exact absurd same (by simp [Except.map])
    · cases same
      cases given with
      | none =>
        obtain ⟨swept, past⟩ := goes
        exact ⟨scan.nextPage, seen, rfl, swept, past⟩
      | some row =>
        obtain ⟨entry, rest', rfl, holds', sweeping'⟩ := goes
        show Ensures (if passes condition of entry then pure (some (Row.stored of.schema entry)) else
          Cursor.find condition.accepts turns) _ _
        cases passing : passes condition of entry with
        | true => exact ⟨scan, entry, rest', seen, rfl, holds', rfl, passing, rfl, sweeping'⟩
        | false =>
          have same : (seen ++ [entry]).filter (passes condition of) = seen.filter (passes condition of) := by
            rw [List.filter_append, List.filter_cons_of_neg (by simp [passing]), List.filter_nil, List.append_nil]
          have later := ih (sweeping'.sweeping_refused passing) holds'
          rw [same] at later
          exact later

def deleteEach (txn : TxnId) (row : Row) : Action Unit := do let _ ← Engine.delete txn row.location

theorem visit_deletes {entry : RowId × List Value} {number : Nat}
    (sweeping : of.Sweeping base (passes condition of) number seen (entry :: rest) e)
    (passing : passes condition of entry = true) :
    Ensures (Changing.visit (deleteEach of.txn) (seen.filter (passes condition of)).length (Row.stored of.schema entry)) e
      fun answer e' => ∀ count, answer = .ok count →
        count = ((seen ++ [entry]).filter (passes condition of)).length ∧
          of.Sweeping base (passes condition of) number (seen ++ [entry]) rest e' := by
  have done : Ensures (deleteEach of.txn (Row.stored of.schema entry)) e fun answer e' =>
      answer = .ok () → of.Sweeping base (passes condition of) number (seen ++ [entry]) rest e' :=
    (sweeping.delete_sweeps passing).bind (fun _ _ swept _ => swept) fun _ _ _ other => absurd other (by simp)
  refine done.bind ?_ fun _ _ _ _ other => absurd other (by simp)
  rintro _ e' swept _ ⟨⟩
  refine ⟨?_, swept rfl⟩
  rw [List.filter_append, List.filter_cons_of_pos passing, List.filter_nil, List.length_append]
  rfl

theorem drain_deletes (within : base.Within) (turns : Nat) {s : FileScan}
    (sweeping : of.Sweeping base (passes condition of) s.nextPage seen rest e) (holds : s.Bears of rest) :
    Ensures (Cursor.drain (Changing.visit (deleteEach of.txn)) turns (seen.filter (passes condition of)).length)
      ((⟨true, none, (⟨true, none, some s⟩ : Cursor (ofTable of))⟩ : Cursor (filter condition (ofTable of))), e) fun
      | .ok count, left => left.2.Tidy ∧ InHand of.txn of.table of.entry left.2 ∧
          (left.2.rowMap of.table of.entry).entries = base.entries.filter (fun entry => !passes condition of entry) ∧
          count = (base.entries.filter (passes condition of)).length
      | .error _, _ => True := by
  induction turns generalizing s seen rest e with
  | zero => trivial
  | succ turns ih =>
    have found : Ensures (filter condition (ofTable of)).fetch ((⟨true, none, some s⟩ : Cursor (ofTable of)), e)
        (Finds base condition of (seen.filter (passes condition of)).length) :=
      find_sweeps ((ofTable of).limit e + 2) sweeping holds
    refine (Cursor.pull_ensures found).bind ?_ fun _ _ _ => trivial
    rintro (_ | row) ⟨_, e'⟩ ⟨_, rfl, came⟩
    · obtain ⟨number, seen', same, swept, past⟩ := came
      obtain ⟨left, all⟩ := swept.sweeps.entries_eq_filter within past
      refine ⟨swept.tidy, swept.inHand, left, ?_⟩
      rw [← same, all]
    · obtain ⟨scan, entry, rest', seen', rfl, holds', rfl, passing, same, sweeping'⟩ := came
      have deleted := visit_deletes sweeping' passing
      rw [same] at deleted
      refine deleted.engine_step.bind ?_ fun _ _ _ => trivial
      rintro count ⟨_, e''⟩ ⟨rfl, came⟩
      obtain ⟨rfl, sweeping''⟩ := came count rfl
      exact ih sweeping'' holds'

/-- The scan and the filter have been started, and nothing has been read. -/
def Unread (base : RowMap) (condition : Condition) (of : ScanOf) (inner : Cursor (filter condition (ofTable of)))
    (now : Engine) : Prop :=
  inner = ⟨true, none, (⟨true, none, some (.start of.entry.file of.table of.txn)⟩ : Cursor (ofTable of))⟩ ∧
    of.Sweeping base (passes condition of) 0 [] [] now

/-- The rows that pass have been deleted, and the row says how many there were. -/
def Swept (base : RowMap) (condition : Condition) (of : ScanOf) (row : Row) (now : Engine) : Prop :=
  now.Tidy ∧ InHand of.txn of.table of.entry now ∧
    base.Counted (passes condition of) row (now.rowMap of.table of.entry)

theorem visitAll_deletes (within : base.Within) (condition : Condition) (of : ScanOf)
    (inner : Cursor (filter condition (ofTable of))) (e : Engine) (unread : Unread base condition of inner e) :
    Ensures (Changing.visitAll (deleteEach of.txn)) (inner, e) fun answer left =>
      ∀ count row, answer = .ok count → countRow "Deleted" count = .ok row → Swept base condition of row left.2 := by
  obtain ⟨rfl, sweeping⟩ := unread
  have drained := drain_deletes within ((filter condition (ofTable of)).limit e + 2)
    (s := .start of.entry.file of.table of.txn) sweeping ⟨rfl, rfl, rfl⟩
  refine .congr (Changing.visitAll_eq ..) (drained.mono ?_)
  rintro (fault | count) left came
  · exact fun _ _ other => absurd other (by simp)
  · rintro _ row ⟨⟩ counted
    obtain ⟨tidy, inHand, others, rfl⟩ := came
    exact ⟨tidy, inHand, others, values_of_countRow counted⟩

abbrev AskedToDelete (base : RowMap) (condition : Condition) (of : ScanOf) :
    Cursor (Plan.delete of.txn (.filter condition (.scan of))).source → Engine → Prop :=
  Changing.Asked "Deleted" (deleteEach of.txn) (Unread base condition of) (Swept base condition of)

/-- Wherever the operator was, it is to begin, unless it has given its row. -/
theorem start_asked (cursor : Cursor (Plan.delete of.txn (.filter condition (.scan of))).source)
    (sweeping : of.Sweeping base (passes condition of) 0 [] [] e) :
    Ensures Use.start.act (cursor, e) fun _ left => AskedToDelete base condition of left.1 left.2 := by
  obtain ⟨_, _, inner⟩ := cursor
  obtain ⟨⟨_, _, _⟩, done⟩ : Changing (filter condition (ofTable of)) := inner
  cases done with
  | false => exact .started ⟨rfl, sweeping⟩
  | true => exact .spent

theorem AskedToDelete.asked_of_spares {cursor : Cursor (Plan.delete of.txn (.filter condition (.scan of))).source}
    (asked : AskedToDelete base condition of cursor e) (op : Op) (spares : op.looks = true ∨ op.table? ≠ some of.table)
    (goesOn : op.ends = true → op.txn ≠ of.txn) : AskedToDelete base condition of cursor (outcome op.act e).2 := by
  refine asked.mono ?_ ?_
  · rintro inner ⟨same, tidy, inHand, sweeps⟩
    obtain ⟨tidy', inHand', rows⟩ := (inHand.act_spares tidy op spares goesOn).outcome
    exact ⟨same, tidy', inHand', rows ▸ sweeps⟩
  · rintro row ⟨tidy, inHand, counted⟩
    obtain ⟨tidy', inHand', rows⟩ := (inHand.act_spares tidy op spares goesOn).outcome
    exact ⟨tidy', inHand', rows ▸ counted⟩

end Source

/-- One looks whether the plan of that name has a row, or a transaction takes a step that neither writes to the table
nor is the end of the one that has it in hand. -/
def Command.Idle (id : String) (txn : TxnId) (table : TableId) (command : Command) : Prop :=
  command = .usePlan id .hasNext ∨
    ∃ op, command = .step op ∧ (op.looks = true ∨ op.table? ≠ some table) ∧ (op.ends = true → op.txn ≠ txn)

theorem Command.Idle.bides_of_idle {id : String} {base : RowMap} {condition : Condition} {of : ScanOf}
    {command : Command}
    (idle : command.Idle id of.txn of.table) : Session.Bides id (Source.AskedToDelete base condition of) command := by
  rcases idle with rfl | ⟨op, rfl, spares, goesOn⟩
  · exact .inl rfl
  · refine .inr ⟨rfl, rfl, fun cursor s asked => ?_⟩
    rw [Command.run_step]
    exact asked.asked_of_spares op spares goesOn

namespace Call

/-- However tables have been registered, each once, and whatever else has been asked of the store: a transaction deletes
what a filter lets pass of a scan of a table. Nobody else has changes in the table that are not committed, nobody writes
to it, and the copies of its pages without changes are what the file has. The operator is started, one may look whether
it has a row, and in the end the row is given, and nothing has failed. Then the table holds the rows that did not pass
when the operator was started, each where it was and with its values, and the row says how many passed. -/
theorem delete_leaves_what_does_not_pass (settings : Settings) (volume : Volume) (calls : List Call)
    (once : (calls.filterMap table?).Pairwise TableSpec.Unlike) (s : Session)
    (built : s.engine = after settings volume calls) (id : String) (of : ScanOf) (condition : Condition)
    (cursor : Cursor (Plan.delete of.txn (.filter condition (.scan of))).source)
    (here : s.plans.get? id = some ⟨.delete of.txn (.filter condition (.scan of)), cursor⟩)
    (found : s.engine.catalog.find? of.table = some of.entry) (whole : s.engine.Whole of.table)
    (ours : Ours (· = of.table) of.txn s.engine) (between : List Command)
    (idle : ∀ command ∈ between, command.Idle id of.txn of.table) (row : Row) :
    let uses := .usePlan id .start :: (between ++ [.usePlan id .next])
    (∀ reply ∈ s.replies id uses, Reply.fault? reply = none) →
    (s.replies id uses).getLast? = some (.ok (.row (some row))) →
    (s.engine.rowMap of.table of.entry).Counted (Source.passes condition of) row
      ((s.after uses).engine.rowMap of.table of.entry) := by
  intro uses fair last
  have upheld : Upheld _ s.engine := built ▸ upheld_after settings volume calls once
  have attuned := upheld.attuned_of_whole found whole
  have sweeping : of.Sweeping (s.engine.rowMap of.table of.entry) (Source.passes condition of) 0 [] [] s.engine :=
    ⟨upheld.tidy, ⟨attuned, ours⟩, .sweeps_start ..⟩
  obtain ⟨cursor', here', asked⟩ := (Session.run_usePlan here (Source.start_asked cursor sweeping)).outcome
  have visits := Source.visitAll_deletes attuned.toListed.within_rowMap condition of
  rw [Session.replies_usePlan] at fair
  rw [Session.replies_usePlan, Session.replies_append, Session.replies_usePlan, Session.replies, ← List.cons_append,
    List.getLast?_concat] at last
  have swept := Session.counts_of_replies (fun _ _ => Source.Changing.hasNext_asked visits) here' asked
    (fun _ _ => Source.Changing.next_asked visits) (fun command among => (idle command among).bides_of_idle)
    (fun reply among => fair reply (List.mem_cons_of_mem _ among)) (by
      rw [Session.replies_append, Session.replies_usePlan, Session.replies, List.getLast?_concat]
      exact last)
  exact swept.2.2

/-- The table of letters is registered, and nothing of it has been read. -/
def registered : List Call := [.register ⟨"a.dat", letters, "a"⟩, .register ⟨"b.dat", letters, "b"⟩]

def letterScan : ScanOf := ⟨⟨1⟩, alphabet, "a", ⟨2⟩⟩

/-- There is a plan to delete the letters that pass. -/
def deleting (condition : Condition) (e : Engine) : Session :=
  ⟨e, 0, FinMap.empty.insert "d" ⟨.delete ⟨2⟩ (.filter condition (.scan letterScan)), .new _⟩, .empty⟩

def deleted (count : Int32) : Row := ⟨Plan.countSchema "Deleted", [.int count], none⟩

/-- Of the letters and the text behind them the letters are deleted, while somebody writes to another table. -/
theorem two_letters_are_deleted :
    let s := deleting ⟨0, .lt, .text "c"⟩ (after (holding 4) foreign registered)
    let uses : List Command := [.usePlan "d" .start, .usePlan "d" .hasNext,
      .step (.insert ⟨5⟩ ⟨2⟩ letters [.text "q"]), .usePlan "d" .next]
    s.replies "d" uses = [.ok .done, .ok (.more true), .ok (.row (some (deleted 2)))] ∧
      (s.engine.rowMap ⟨1⟩ alphabet).Counted (Source.passes ⟨0, .lt, .text "c"⟩ letterScan) (deleted 2)
        ((s.after uses).engine.rowMap ⟨1⟩ alphabet) := by
  have once : (registered.filterMap table?).Pairwise TableSpec.Unlike := by decide +kernel
  have found : (after (holding 4) foreign registered).catalog.find? ⟨1⟩ = some alphabet := by decide +kernel
  have nothing : (after (holding 4) foreign registered).resident.keys = [] := by decide +kernel
  have absent : ∀ p page, (after (holding 4) foreign registered).resident.get? p ≠ some page := by
    intro p page here
    have among := (FinMap.mem_keys_iff _ p).mpr ⟨page, here⟩
    rw [nothing] at among
    exact absurd among List.not_mem_nil
  have answered : (deleting ⟨0, .lt, .text "c"⟩ (after (holding 4) foreign registered)).replies "d"
      [.usePlan "d" .start, .usePlan "d" .hasNext, .step (.insert ⟨5⟩ ⟨2⟩ letters [.text "q"]), .usePlan "d" .next] =
      [.ok .done, .ok (.more true), .ok (.row (some (deleted 2)))] := by decide +kernel
  refine ⟨answered, delete_leaves_what_does_not_pass (holding 4) foreign registered once
    (deleting ⟨0, .lt, .text "c"⟩ (after (holding 4) foreign registered)) rfl "d" letterScan ⟨0, .lt, .text "c"⟩
    (.new _) (FinMap.get?_insert_self ..) found (fun p page _ here => absurd here (absent p page))
    (fun p page _ _ here => absurd here (absent p page))
    [.usePlan "d" .hasNext, .step (.insert ⟨5⟩ ⟨2⟩ letters [.text "q"])] ?_ (deleted 2) ?_ ?_⟩
  · intro command among
    rcases List.mem_cons.mp among with rfl | among
    · exact .inl rfl
    · rw [List.mem_singleton.mp among]
      exact .inr ⟨_, rfl, .inr (by decide), by decide⟩
  · intro reply among
    rw [List.cons_append, List.cons_append, List.nil_append, answered] at among
    simp only [List.mem_cons, List.not_mem_nil, or_false] at among
    rcases among with rfl | rfl | rfl <;> rfl
  · rw [List.cons_append, List.cons_append, List.nil_append, answered]
    rfl

/-- With two pages in memory the scan gives up the page with the text before it comes to it, and the text is not found
to be what it was. -/
theorem text_escapes_deletion : ¬∀ (condition : Condition) (row : Row),
    let s := deleting condition (after (holding 2) foreign beforehand)
    s.replies "d" [.usePlan "d" .start, .usePlan "d" .next] = [.ok .done, .ok (.row (some row))] →
    (s.engine.rowMap ⟨1⟩ alphabet).Counted (Source.passes condition letterScan) row
      ((s.after [.usePlan "d" .start, .usePlan "d" .next]).engine.rowMap ⟨1⟩ alphabet) := by
  intro counted
  have answered : (deleting ⟨0, .eq, .text "��"⟩ (after (holding 2) foreign beforehand)).replies "d"
      [.usePlan "d" .start, .usePlan "d" .next] = [.ok .done, .ok (.row (some (deleted 0)))] := by decide +kernel
  obtain ⟨-, n, values, same⟩ := counted ⟨0, .eq, .text "��"⟩ (deleted 0) answered
  have passing : (((after (holding 2) foreign beforehand).rowMap ⟨1⟩ alphabet).entries.filter
      (Source.passes ⟨0, .eq, .text "��"⟩ letterScan)).length = 1 := by decide +kernel
  obtain rfl : (0 : Int32) = n := by
    cases values
    rfl
  exact absurd (same.trans (congrArg Int.ofNat passing)) (by decide)

end Call

end RowStore
