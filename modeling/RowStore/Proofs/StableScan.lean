import RowStore.Proofs.Engine.Attuned
/-!
# Reading on while the table changes

A scan holds the rows of one page and reads the next page when it needs it. Meanwhile rows are put in and deleted,
before the page that it holds, on it and behind it. What the scan gives is in order all the same, and a row that was in
the table when the scan was made and has not been deleted is given once. It is given as it was, but for one thing: a
text that somebody else wrote and that is too long for its column may be cut when its page has been given up and is
read again.
-/

namespace RowStore

open Engine

/-- The values are found as they were. Or one of them was a text that is too long for its column, and they are found
as they are read after they were written. -/
def Row.Becomes (types : List ColType) (values values' : List Value) : Prop :=
  values' = values ∨ ¬Row.Fits values types ∧ values' = Row.narrowed types values

theorem Row.Becomes.trans {types : List ColType} {values values' values'' : List Value} (typed : Row.Typed values types)
    (first : Row.Becomes types values values') (second : Row.Becomes types values' values'') :
    Row.Becomes types values values'' := by
  rcases first with rfl | ⟨long, rfl⟩
  · exact second
  · rcases second with rfl | ⟨-, rfl⟩
    · exact .inr ⟨long, rfl⟩
    · exact .inr ⟨long, typed.typed_narrowed.2⟩

/-- The rows that the map holds are still there, those apart that are gone. -/
def RowMap.Outlasts (base : RowMap) (types : List ColType) (gone : List RowId) (m : RowMap) : Prop :=
  ∀ row values, base.rows row = some values → row ∉ gone →
    ∃ values', m.rows row = some values' ∧ Row.Becomes types values values'

/-! ### What becomes of a table -/

namespace Engine

variable {table : TableId} {entry : TableEntry} {base : RowMap} {gone : List RowId} {e e' : Engine}

namespace Listed

variable (listed : Listed table entry e)

include listed

theorem typed_of_rows {row : RowId} {values : List Value} (held : (e.rowMap table entry).rows row = some values) :
    Row.Typed values entry.schema.types := by
  obtain ⟨own, page, seen, used⟩ := (rowMap_rows_eq_some_iff ..).mp held
  obtain ⟨homed, columns, -⟩ := listed.homed_of_view? own seen
  rw [← columns]
  exact homed.shaped.typed values (List.mem_of_getElem? (Option.join_eq_some_iff.mp used))

theorem outlasts_of_glanced (glanced : Glanced (fun _ => True) e e') :
    (e.rowMap table entry).Outlasts entry.schema.types [] (e'.rowMap table entry) := by
  intro row values held _
  obtain ⟨own, page, seen, used⟩ := (rowMap_rows_eq_some_iff ..).mp held
  have found : ∀ page' values', e'.view? row.page = some page' → page'.valuesAt row.slot = some values' →
      (e'.rowMap table entry).rows row = some values' := fun page' values' seen' used' =>
    (rowMap_rows_eq_some_iff ..).mpr ⟨own, page', seen', used'⟩
  rcases (glanced.copies row.page).seen_of_stored (glanced.stored?_kept row.page) with same |
    ⟨⟨copy, here, clean⟩, stored⟩
  · exact ⟨values, found page values (same.trans seen) used, .inl rfl⟩
  · rw [view?_of_resident here] at seen
    cases seen
    rcases listed.settled.clean here clean with same | reread
    · exact ⟨values, found page values (stored.trans same) used, .inl rfl⟩
    · obtain ⟨-, columns, -⟩ := listed.homed_of_view? own (view?_of_resident here)
      have again : page.reread.valuesAt row.slot = some (Row.narrowed entry.schema.types values) := by
        rw [Page.valuesAt_reread, used, columns]
        rfl
      refine ⟨_, found _ _ (stored.trans reread) again, ?_⟩
      by_cases fits : Row.Fits values entry.schema.types
      · exact .inl fits.narrowed_eq_self
      · exact .inr ⟨fits, rfl⟩

end Listed

/-- The table is registered and has at least the pages that it had, and the rows that it held are there. -/
structure Lasting (base : RowMap) (table : TableId) (entry : TableEntry) (gone : List RowId) (e : Engine) : Prop
    extends Listed table entry e where
  typed : ∀ row values, base.rows row = some values → Row.Typed values entry.schema.types
  pages : base.pages ≤ e.pagesOf entry.file
  rows : base.Outlasts entry.schema.types gone (e.rowMap table entry)

theorem Listed.lasting_self (listed : Listed table entry e) : Lasting (e.rowMap table entry) table entry [] e where
  toListed := listed
  typed _ _ held := listed.typed_of_rows held
  pages := Nat.le_refl _
  rows _ values held _ := ⟨values, held, .inl rfl⟩

namespace Lasting

variable (lasting : Lasting base table entry gone e)

include lasting

theorem of_glanced (glanced : Glanced (fun _ => True) e e') : Lasting base table entry gone e' where
  toListed := lasting.toListed.of_glanced glanced
  typed := lasting.typed
  pages := by
    rw [glanced.pagesOf_eq]
    exact lasting.pages
  rows row values held stays := by
    obtain ⟨values', held', first⟩ := lasting.rows row values held stays
    obtain ⟨values'', held'', second⟩ := lasting.toListed.outlasts_of_glanced glanced row values' held' List.not_mem_nil
    exact ⟨values'', held'', first.trans (lasting.typed row values held) second⟩

theorem of_searched (searched : Searched (fun _ => True) e e') : Lasting base table entry gone e' := by
  cases searched with
  | among glanced => exact lasting.of_glanced glanced
  | @beyond other _ f e₀ e₁ before longer after =>
    have lasting₀ := lasting.of_glanced before
    have rows := lasting₀.toListed.rows_of_lengthened longer
    have lasting₁ : Lasting base table entry gone e₁ := by
      refine ⟨lasting₀.toListed.of_lengthened longer, lasting.typed, ?_, ?_⟩
      · exact Nat.le_trans lasting₀.pages (lasting₀.toListed.pages_of_lengthened longer)
      · rw [RowMap.Outlasts, rows]
        exact lasting₀.rows
    exact lasting₁.of_glanced after

/-- A slot is filled or emptied. Where it was filled nothing that was there is lost. -/
theorem of_filled {txn : TxnId} {row : RowId} {content : Option (List Value)} (filled : Filled txn row content e e')
    (shelved : e'.Shelved) {gone' : List RowId} (more : gone ⊆ gone') (lost : content = none → row ∈ gone') :
    Lasting base table entry gone' e' where
  toListed := lasting.toListed.of_filled filled shelved
  typed := lasting.typed
  pages := by
    rw [filled.pagesOf_eq]
    exact lasting.pages
  rows other values held stays := by
    obtain ⟨values', held', becomes⟩ := lasting.rows other values held fun among => stays (more among)
    refine ⟨values', ?_, becomes⟩
    by_cases own : row.page.table = table
    · rw [filled.rowMap_write own]
      refine (if_neg ?_).trans held'
      rintro rfl
      have free : ((e.rowMap table entry).rows other).isSome = content.isNone := filled.isSome_rows own
      rw [held'] at free
      exact stays (lost (Option.isNone_iff_eq_none.mp free.symm))
    · rw [filled.rowMap_of_ne own]
      exact held'

theorem act_lasts (tidy : e.Tidy) (op : Op) (goesOn : op.ends = false) : Ensures op.act e fun answer e' =>
    e'.Tidy ∧ Lasting base table entry (gone ++ (op.removes? answer).toList) e' := by
  refine ((op.act_unfolds e tidy).and (op.act_fills (lasting.toListed.sturdy_of_tidy tidy) (fun _ _ => trivial)
    goesOn)).mono ?_
  rintro answer e' ⟨⟨tidy', effects⟩, e₁, searched, kept⟩
  refine ⟨tidy', ?_⟩
  have shelved' : e'.Shelved := preserved_of_effects Shelved.shelved_of_effect effects lasting.shelved
  have lasting₁ := lasting.of_searched searched
  have more : gone ⊆ gone ++ (op.removes? answer).toList := List.subset_append_left _ _
  rcases kept with rfl | ⟨row, content, -, filled, lost⟩
  · refine ⟨lasting₁.toListed, lasting₁.typed, lasting₁.pages, fun row values held stays => ?_⟩
    exact lasting₁.rows row values held fun among => stays (more among)
  · refine lasting₁.of_filled filled shelved' more fun emptied => ?_
    rw [lost emptied]
    exact List.mem_append_right _ (List.mem_singleton_self row)

end Lasting

end Engine

/-! ### What a scan has passed -/

/-- These are the rows that have been found on the pages before that number, in order, and whatever the map held there
and is not gone is among them. -/
structure RowMap.Passed (base : RowMap) (types : List ColType) (gone : List RowId) (number : Nat)
    (entries : List (RowId × List Value)) : Prop where
  ordered : entries.Pairwise fun a b => a.1.Before b.1
  within : ∀ entry ∈ entries, entry.1.page.table = base.table ∧ entry.1.page.number < number
  every : ∀ row values, base.rows row = some values → row ∉ gone → row.page.number < number →
    ∃ values', (row, values') ∈ entries ∧ Row.Becomes types values values'

namespace RowMap.Passed

variable {base m : RowMap} {types : List ColType} {gone : List RowId} {number : Nat}
  {entries : List (RowId × List Value)}

theorem passed_zero : base.Passed types gone 0 [] := ⟨.nil, by simp, by simp⟩

theorem mono {gone' : List RowId} (passed : base.Passed types gone number entries) (more : gone ⊆ gone') :
    base.Passed types gone' number entries where
  ordered := passed.ordered
  within := passed.within
  every row values held stays := passed.every row values held fun among => stays (more among)

theorem passed_next_page (passed : base.Passed types gone number entries) (within : base.Within) (now : m.Within)
    (table : m.table = base.table) (outlasts : base.Outlasts types gone m) :
    base.Passed types gone (number + 1) (entries ++ m.onPage number) where
  ordered := by
    refine List.pairwise_append.mpr ⟨passed.ordered, m.rows.ordered_onPage .., ?_⟩
    rintro a earlier ⟨row, values⟩ here
    obtain ⟨page, -⟩ := (mem_onPage_iff ..).mp here
    left
    rw [page]
    exact (passed.within a earlier).2
  within := by
    rintro ⟨row, values⟩ among
    rcases List.mem_append.mp among with earlier | here
    · obtain ⟨own, before⟩ := passed.within _ earlier
      exact ⟨own, Nat.lt_succ_of_lt before⟩
    · obtain ⟨page, -⟩ := (mem_onPage_iff ..).mp here
      rw [page]
      exact ⟨table, Nat.lt_succ_self _⟩
  every row values held stays before := by
    rcases Nat.lt_succ_iff_lt_or_eq.mp before with earlier | rfl
    · obtain ⟨values', among, becomes⟩ := passed.every row values held stays earlier
      exact ⟨values', List.mem_append_left _ among, becomes⟩
    · obtain ⟨values', held', becomes⟩ := outlasts row values held stays
      obtain ⟨own, -⟩ := (base.mem_places_iff row).mp (within.place row values held)
      obtain ⟨-, -, below⟩ := (m.mem_places_iff row).mp (now.place row values' held')
      refine ⟨values', List.mem_append_right _ ((mem_onPage_iff ..).mpr ⟨?_, below, held'⟩), becomes⟩
      rw [table, ← own]

theorem filter_eq_singleton (passed : base.Passed types gone number entries) {row : RowId} {values : List Value}
    (among : (row, values) ∈ entries) : entries.filter (fun entry => entry.1 = row) = [(row, values)] := by
  have ordered := passed.ordered
  obtain ⟨earlier, later, rfl⟩ := List.append_of_mem among
  obtain ⟨-, further, across⟩ := List.pairwise_append.mp ordered
  have none_earlier : earlier.filter (fun entry => entry.1 = row) = [] := by
    refine List.filter_eq_nil_iff.mpr fun entry here same => ?_
    have before := across entry here (row, values) List.mem_cons_self
    exact RowId.Before.not_before_self row (of_decide_eq_true same ▸ before)
  have none_later : later.filter (fun entry => entry.1 = row) = [] := by
    refine List.filter_eq_nil_iff.mpr fun entry here same => ?_
    have before := (List.pairwise_cons.mp further).1 entry here
    exact RowId.Before.not_before_self row (of_decide_eq_true same ▸ before)
  rw [List.filter_append, List.filter_cons_of_pos (by simp), none_earlier, none_later, List.nil_append]

theorem pairwise_take (passed : base.Passed types gone number entries) (count : Nat) :
    (entries.take count).Pairwise (fun a b => a.1.Before b.1) ∧
      ∀ entry ∈ entries.take count, entry.1.page.table = base.table := by
  refine ⟨passed.ordered.sublist (List.take_sublist ..), fun entry among => ?_⟩
  exact (passed.within entry (List.mem_of_mem_take among)).1

end RowMap.Passed

/-! ### Reading and writing in turns -/

/-- The next row is asked for, or some transaction takes a step. -/
inductive Turn where
  | next
  | step (op : Op)

/-- A scan with the rows that it has given, and the rows that have been deleted meanwhile. -/
structure Reading where
  scan : FileScan
  engine : Engine
  given : List Row
  gone : List RowId

namespace Reading

def start (file : FileNo) (table : TableId) (txn : TxnId) (e : Engine) : Reading := ⟨.start file table txn, e, [], []⟩

/-- What fails gives nothing and deletes nothing. -/
def turn (r : Reading) : Turn → Reading
  | .next =>
    let (answer, scan, engine) := outcome FileScan.next (r.scan, r.engine)
    { r with scan, engine, given := r.given ++ FileScan.given answer }
  | .step op =>
    let (answer, engine) := outcome op.act r.engine
    { r with engine, gone := r.gone ++ (op.removes? answer).toList }

/-- What the scan has given and what it holds are the rows that have been found on the pages before. -/
structure Steady (base : RowMap) (table : TableId) (entry : TableEntry) (r : Reading) : Prop where
  tidy : r.engine.Tidy
  lasting : Lasting base table entry r.gone r.engine
  file : r.scan.file = entry.file
  own : r.scan.table = table
  passed : ∃ entries, r.given ++ r.scan.pending = entries.map (Row.stored entry.schema) ∧
    base.Passed entry.schema.types r.gone r.scan.nextPage entries

variable {base : RowMap} {table : TableId} {entry : TableEntry} {r : Reading}

theorem Steady.next_reads (steady : r.Steady base table entry) (within : base.Within) (columns : base.table = table) :
    Ensures FileScan.next (r.scan, r.engine) (FileScan.Reads
      (fun e => (e.Tidy ∧ Lasting base table entry r.gone e) ∧ e.pagesOf entry.file = r.engine.pagesOf entry.file)
      (fun number pending => ∃ entries, r.given ++ pending = entries.map (Row.stored entry.schema) ∧
        base.Passed entry.schema.types r.gone number entries)
      (r.engine.pagesOf entry.file) r.scan) := by
  refine Listed.next_reads steady.file steady.own (fun e keeps => ⟨keeps.1, keeps.2.toListed⟩) ?_ ?_
    ⟨steady.tidy, steady.lasting⟩ steady.passed
  · exact fun e e' keeps glanced tidy => ⟨tidy, keeps.2.of_glanced glanced⟩
  · rintro e number ⟨-, lasting⟩ - ⟨entries, given, passed⟩
    refine ⟨_, ?_, passed.passed_next_page within lasting.toListed.within_rowMap columns.symm lasting.rows⟩
    rw [List.map_append, ← given, List.append_nil]

theorem Steady.steady_turn (steady : r.Steady base table entry) (within : base.Within) (columns : base.table = table)
    (turn : Turn) (goesOn : ∀ op, turn = .step op → op.ends = false) : (r.turn turn).Steady base table entry := by
  cases turn with
  | next =>
    have reads := (steady.next_reads within columns).outcome
    rw [Reading.turn]
    generalize outcome FileScan.next (r.scan, r.engine) = came at reads ⊢
    obtain ⟨alike, ⟨⟨tidy, lasting⟩, -⟩, entries, given, passed⟩ := reads.known_of_reads
    refine ⟨tidy, lasting, alike.file.trans steady.file, alike.table.trans steady.own, entries, ?_, passed⟩
    rw [List.append_assoc]
    exact given
  | step op =>
    have done := (steady.lasting.act_lasts steady.tidy op (goesOn op rfl)).outcome
    obtain ⟨entries, given, passed⟩ := steady.passed
    exact ⟨done.1, done.2, steady.file, steady.own, entries, given, passed.mono (List.subset_append_left _ _)⟩

theorem Steady.steady_run {turns : List Turn} (steady : r.Steady base table entry) (within : base.Within)
    (columns : base.table = table) (goOn : ∀ op, .step op ∈ turns → op.ends = false) :
    (turns.foldl turn r).Steady base table entry := by
  induction turns generalizing r with
  | nil => exact steady
  | cons turn turns ih =>
    refine ih (steady.steady_turn within columns turn ?_) fun op among => goOn op (List.mem_cons_of_mem _ among)
    rintro op rfl
    exact goOn op List.mem_cons_self

end Reading

/-- However tables have been registered, each once, and whatever else has been asked of the store: rows are drawn from a
scan of a table, and in between transactions insert, delete and read what they like and none of them ends. The rows that
the scan gives are of the table, and each is stored behind the one before. When the scan comes to its end, every row
that the table held when the scan was made, and that has not been deleted since, has been given exactly once, with its
values, unless a text among them is too long for its column: then it may have been given as it is read after it was
written. -/
theorem Call.scan_gives_each_row_once (settings : Settings) (volume : Volume) (calls : List Call)
    (once : (calls.filterMap table?).Pairwise TableSpec.Unlike) (table : TableId) (entry : TableEntry) (txn : TxnId)
    (found : (after settings volume calls).catalog.find? table = some entry) (turns : List Turn)
    (goOn : ∀ op, .step op ∈ turns → op.ends = false) :
    let e := after settings volume calls
    let r := turns.foldl Reading.turn (.start entry.file table txn e)
    ∃ entries : List (RowId × List Value), r.given = entries.map (Row.stored entry.schema) ∧
      entries.Pairwise (fun a b => a.1.Before b.1) ∧ (∀ a ∈ entries, a.1.page.table = table) ∧
      ∀ left, FileScan.next (r.scan, r.engine) = .ok none left →
        ∀ row values, (row, values) ∈ (e.rowMap table entry).entries → row ∉ r.gone →
          ∃ values', entries.filter (fun a => a.1 = row) = [(row, values')] ∧
            Row.Becomes entry.schema.types values values' := by
  intro e r
  have upheld : Upheld _ e := upheld_after settings volume calls once
  have listed : Listed table entry e := ⟨upheld.shelved, upheld.roomy, upheld.settled, found⟩
  have within := listed.within_rowMap
  have started : (Reading.start entry.file table txn e).Steady (e.rowMap table entry) table entry :=
    ⟨upheld.tidy, listed.lasting_self, rfl, rfl, [], rfl, .passed_zero⟩
  have steady : r.Steady (e.rowMap table entry) table entry := started.steady_run within rfl goOn
  by_cases ended : ∃ left, FileScan.next (r.scan, r.engine) = .ok none left
  · obtain ⟨left, ended⟩ := ended
    obtain ⟨-, ⟨⟨-, lasting⟩, -⟩, -, ⟨entries, given, passed⟩, past⟩ := (steady.next_reads within rfl).of_ok ended
    rw [List.append_nil] at given
    refine ⟨entries, given, passed.ordered, fun a among => (passed.within a among).1, ?_⟩
    intro _ _ row values among stays
    have held := ((within.lists_entries).mem_iff row values).mp among
    have inside := ((e.rowMap table entry).mem_places_iff row).mp (within.place row values held.2)
    obtain ⟨values', here, becomes⟩ := passed.every row values held.2 stays
      (Nat.lt_of_lt_of_le inside.2.1 (Nat.le_trans steady.lasting.pages past))
    exact ⟨values', passed.filter_eq_singleton here, becomes⟩
  · obtain ⟨entries, given, passed⟩ := steady.passed
    obtain ⟨ordered, own⟩ := passed.pairwise_take r.given.length
    refine ⟨entries.take r.given.length, ?_, ordered, own, fun left here => absurd ⟨left, here⟩ ended⟩
    rw [List.map_take, ← given, List.take_left]

namespace Call

/-- There is a file with a page of two letters, and behind it a page with a text of two bytes that begin no
character. -/
def foreign : Volume :=
  Volume.empty.put "a.dat" ([3, 0, 0, 0, 1, 0x61, 0, 0, 0, 0, 1, 0x62, 0, 0, 0, 0] ++
    [1, 0, 0, 0, 2, 0xFF, 0xFF] ++ Bytes.zeros 9)

/-- A letter is inserted beside the text and committed. Then the page of another table is used, so that the page with
the text is the first to be given up. -/
def beforehand : List Call :=
  [.register ⟨"a.dat", letters, "a"⟩, .register ⟨"b.dat", letters, "b"⟩,
    .step (.insert ⟨9⟩ ⟨2⟩ letters [.text "x"]), .step (.commit ⟨9⟩),
    .step (.insert ⟨1⟩ ⟨1⟩ letters [.text "y"]), .step (.commit ⟨1⟩),
    .step (.read ⟨9⟩ ⟨⟨2⟩, 0⟩ .shared), .step (.read ⟨9⟩ ⟨⟨2⟩, 0⟩ .shared), .step (.commit ⟨9⟩),
    .step (.read ⟨3⟩ ⟨⟨1⟩, 1⟩ .shared), .step (.commit ⟨3⟩)]

def alphabet : TableEntry := ⟨0, letters, "a"⟩

def holding (pages : Nat) : Settings := { pageSize := 16, poolPages := pages }

/-- A scan of the table is made then, and the turns are taken. -/
def readings (pages : Nat) (turns : List Turn) : Reading :=
  turns.foldl Reading.turn (.start 0 ⟨1⟩ ⟨2⟩ (after (holding pages) foreign beforehand))

/-- Behind the row that has been given a row is put in, and one is deleted. -/
def interleaved : List Turn :=
  [.next, .step (.insert ⟨2⟩ ⟨1⟩ letters [.text "z"]), .next, .step (.delete ⟨2⟩ (some ⟨⟨⟨1⟩, 1⟩, 1⟩)), .next, .next]

theorem ends_of_outcome {r : Reading} (ended : (outcome FileScan.next (r.scan, r.engine)).1.toOption = some none) :
    ∃ left, FileScan.next (r.scan, r.engine) = .ok none left := by
  rw [outcome] at ended
  cases done : FileScan.next (r.scan, r.engine) with
  | error fault left => exact absurd (done ▸ ended) (by simp [Except.toOption])
  | ok answer left =>
    rw [done] at ended
    cases Option.some.inj ended
    exact ⟨left, rfl⟩

/-- Where there is room in memory for all pages the text is given as it was. -/
theorem letters_are_given_once :
    (readings 4 interleaved).given.map Row.values = [[.text "a"], [.text "b"], [.text "��"], [.text "z"]] ∧
    (readings 4 interleaved).gone = [⟨⟨⟨1⟩, 1⟩, 1⟩] ∧
    ∃ entries : List (RowId × List Value), (readings 4 interleaved).given = entries.map (Row.stored letters) ∧
      entries.Pairwise (fun a b => a.1.Before b.1) ∧ (∀ a ∈ entries, a.1.page.table = ⟨1⟩) ∧
      ∀ row values, (row, values) ∈ ((after (holding 4) foreign beforehand).rowMap ⟨1⟩ alphabet).entries →
        row ∉ (readings 4 interleaved).gone → ∃ values', entries.filter (fun a => a.1 = row) = [(row, values')] ∧
          Row.Becomes letters.types values values' := by
  have once : (beforehand.filterMap table?).Pairwise TableSpec.Unlike := by decide +kernel
  have found : (after (holding 4) foreign beforehand).catalog.find? ⟨1⟩ = some alphabet := by decide +kernel
  obtain ⟨left, ended⟩ := ends_of_outcome (r := readings 4 interleaved) (by decide +kernel)
  obtain ⟨entries, given, ordered, own, every⟩ := scan_gives_each_row_once (holding 4) foreign beforehand once ⟨1⟩
    alphabet ⟨2⟩ found interleaved (by simp [interleaved, Op.ends])
  exact ⟨by decide +kernel, by decide +kernel, entries, given, ordered, own, every left ended⟩

/-- With two pages in memory the scan gives up the page with the text before it comes to it. -/
theorem text_is_given_cut : ¬∀ turns, (∀ op, .step op ∈ turns → op.ends = false) →
    ∀ left, FileScan.next ((readings 2 turns).scan, (readings 2 turns).engine) = .ok none left →
      ∀ row values, (row, values) ∈ ((after (holding 2) foreign beforehand).rowMap ⟨1⟩ alphabet).entries →
        row ∉ (readings 2 turns).gone → Row.stored letters (row, values) ∈ (readings 2 turns).given := by
  intro whole
  let turns : List Turn := [.next, .next, .next, .next]
  obtain ⟨left, ended⟩ := ends_of_outcome (r := readings 2 turns) (by decide +kernel)
  have entered : (⟨⟨⟨1⟩, 1⟩, 0⟩, [.text "��"]) ∈
      ((after (holding 2) foreign beforehand).rowMap ⟨1⟩ alphabet).entries := by decide +kernel
  have absent : Row.stored letters (⟨⟨⟨1⟩, 1⟩, 0⟩, [.text "��"]) ∉ (readings 2 turns).given := by decide +kernel
  have stays : (⟨⟨⟨1⟩, 1⟩, 0⟩ : RowId) ∉ (readings 2 turns).gone := by decide +kernel
  exact absent (whole turns (by simp [turns]) left ended _ _ entered stays)

end Call

end RowStore
