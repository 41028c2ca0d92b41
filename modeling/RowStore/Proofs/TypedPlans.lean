import RowStore.Proofs.Displacement
import RowStore.Proofs.FailedWrites
/-!
# Plans give rows of their schema

Join, scan and aggregate make rows without looking at them, and the schema that a plan reports is computed apart from
the rows. That the two agree is shown of every source in a plan at once: a watch is put behind each of them, which lets
a row pass only if a table of the schema that the source reports takes it, and otherwise fails. The watched plan does
exactly what the plan does, so no watch ever finds anything, whatever else is asked of the store meanwhile.
-/

namespace RowStore

open Engine

/-! ### Rows that a table takes -/

namespace Row

/-- The row has the column types, and one value for each of them that may be stored there. -/
def accepted (schema : Schema) (row : Row) : Bool :=
  row.schema.sameTypes schema && (build schema row.values).isOk

theorem accepted_iff {schema : Schema} {row : Row} : row.accepted schema = true ↔ row.Conforms schema.types := by
  rw [accepted, Bool.and_eq_true, Schema.sameTypes, decide_eq_true_iff]
  constructor
  · intro both
    obtain ⟨types, builds⟩ := both
    cases built : build schema row.values with
    | error fault => simp [built, Except.isOk, Except.toBool] at builds
    | ok made => exact ⟨types, ((build_eq_ok_iff schema row.values made).mp built).1⟩
  · intro conforms
    have built : build schema row.values = .ok ⟨schema, row.values, none⟩ :=
      (build_eq_ok_iff schema row.values _).mpr ⟨conforms.fits, rfl⟩
    exact ⟨conforms.schema, by simp [built, Except.isOk, Except.toBool]⟩

/-- A table of the schema takes the row, and what is read again from any of its pages is the row as it was. -/
structure Storable (schema : Schema) (row : Row) : Prop where
  checked : ∀ e, checkSchema schema row.schema e = .ok () e
  built : build schema row.values = .ok ⟨schema, row.values, none⟩
  reread : ∀ page : Page, page.Shaped → page.schema = schema → page.freeSlots ≠ 0 →
    ∃ stored location read, page.insert row = .ok (stored, location) ∧ stored.Shaped ∧
      Page.decode? page.id schema stored.encode = some read ∧
      read.row? location.slot = some ⟨schema, row.values, some location⟩

theorem Conforms.to_storable {schema : Schema} {row : Row} (conforms : row.Conforms schema.types) :
    row.Storable schema where
  checked e := by
    rw [checkSchema, if_pos (show row.schema.sameTypes schema from decide_eq_true conforms.schema)]
    rfl
  built := (build_eq_ok_iff schema row.values _).mpr ⟨conforms.fits, rfl⟩
  reread page shaped own free := by
    subst own
    rcases page.insert_cases row with ⟨other, -⟩ | ⟨-, used, -⟩ | ⟨slot, inside, -, -, -, done⟩
    · exact absurd (decide_eq_true conforms.schema) other
    · exact absurd (page.freeSlots_eq_zero_iff.mpr used) free
    · have stored : (page.putAt slot (some row.values)).Shaped := by
        apply shaped.shaped_putAt
        intro values same
        cases same
        exact conforms.fits.to_typed
      refine ⟨_, _, _, done, stored, stored.decode?_encode, ?_⟩
      have held : (page.putAt slot (some row.values)).reread.valuesAt slot = some row.values := by
        rw [Page.valuesAt_reread, Page.valuesAt_putAt page slot slot _ inside, if_pos rfl, Option.map_some]
        exact congrArg some conforms.fits.narrowed_eq_self
      change ((page.putAt slot (some row.values)).reread.valuesAt slot).map _ = _
      rw [held]
      rfl

end Row

/-! ### A watch behind every source -/

namespace Source

/-- A row that does not pass the test makes the source fail. -/
def watched (test : Row → Bool) (alarm : Fault) (source : Source) : Source :=
  { source with
    fetch := do
      match ← source.fetch with
      | none => return none
      | some row => if test row then return some row else throw alarm }

theorem Follows.follows_watched {kept : Engine → Prop} {wanted : Row → Prop} {left right : Source}
    {goes : left.State → right.State → Prop} (follows : left.Follows kept wanted right goes) {test : Row → Bool}
    (passes : ∀ row, wanted row → test row = true) (alarm : Fault) :
    left.Follows kept wanted (right.watched test alarm) goes where
  initial := follows.initial
  finish := follows.finish
  replay := follows.replay
  limit := follows.limit
  start := follows.start
  fetch s t e related keeps := by
    rw [← bind_pure left.fetch]
    refine (follows.fetch s t e related keeps).bind ?_
    intro answer s₁ t₁ e₁ related₁ keeps₁ given
    cases answer with
    | none => exact .pure related₁ keeps₁ given
    | some row =>
      simp only [passes row (given row rfl), if_true]
      exact .pure related₁ keeps₁ given

end Source

namespace Plan

/-- The plan with a watch behind every source in it: each fails when it gives a row that a table of the schema it
reports would not take. -/
def watched (alarm : Fault) : Plan → Source
  | .rows schema list => (Source.ofRows list).watched (Row.accepted schema) alarm
  | .scan of => (Source.ofTable of).watched (Row.accepted of.schema) alarm
  | .filter condition child =>
      (Source.filter condition (child.watched alarm)).watched (Row.accepted child.schema) alarm
  | .join condition left right =>
      (Source.join condition (left.schema ++ right.schema) (left.watched alarm) (right.watched alarm)).watched
        (Row.accepted (left.schema ++ right.schema)) alarm
  | .aggregate grouping child =>
      (Source.aggregate grouping (child.watched alarm)).watched (Row.accepted grouping.output) alarm
  | .insert table txn child =>
      (Source.change "Inserted" (fun row => do let _ ← Engine.insert txn table row) (child.watched alarm)).watched
        (Row.accepted (countSchema "Inserted")) alarm
  | .delete txn child =>
      (Source.change "Deleted" (fun row => do let _ ← Engine.delete txn row.location) (child.watched alarm)).watched
        (Row.accepted (countSchema "Deleted")) alarm

end Plan

/-! ### Files with nothing but rows for their columns -/

namespace Page

theorem decodeSlot?_congr {schema schema' : Schema} (types : schema'.types = schema.types) :
    decodeSlot? schema' = decodeSlot? schema := by
  ext1 data
  ext1 start
  ext1 used
  rw [decodeSlot?, decodeSlot?, Schema.recordSize, Schema.recordSize, types]

theorem decode?_congr {schema schema' : Schema} (types : schema'.types = schema.types) (id : PageId) (bytes : Bytes) :
    decode? id schema' bytes = (decode? id schema bytes).map fun page => page.under id schema' := by
  have record : schema'.recordSize = schema.recordSize := by rw [Schema.recordSize, Schema.recordSize, types]
  rw [decode?, decode?]
  simp only [capacity_congr types, record, decodeSlot?_congr types]
  split
  · rfl
  · simp only [Option.bind_eq_bind, Option.map_bind]
    rfl

theorem rows_conform_iff (page : Page) : (∀ row ∈ page.rows, row.Conforms page.schema.types) ↔
    ∀ values, some values ∈ page.slots → Row.Fits values page.schema.types := by
  constructor
  · intro conform values used
    obtain ⟨slot, within, here⟩ := List.getElem_of_mem used
    have among : (⟨page.schema, values, some (page.locate slot)⟩ : Row) ∈ page.rows := by
      rw [rows_eq]
      apply List.mem_filterMap.mpr
      refine ⟨slot, List.mem_range.mpr within, ?_⟩
      rw [row?, List.getElem?_eq_getElem within, here]
      rfl
    exact (conform _ among).fits
  · intro fits row among
    obtain ⟨⟨slot, index⟩, here, taken⟩ := List.mem_filterMap.mp among
    obtain ⟨values, rfl, rfl⟩ := Option.map_eq_some_iff.mp taken
    exact ⟨rfl, fits values (List.fst_mem_of_mem_zipIdx here)⟩

end Page

/-- On all pages that the file of the table has there are rows for its columns and no others. -/
def TableSpec.Conforming (settings : Settings) (volume : Volume) (t : TableSpec) : Prop :=
  ∀ name, t.fileName? = some name → ∀ number < (start settings volume).extent name, ∀ id page,
    Page.decode? id t.schema ((start settings volume).pageBytes name number) = some page →
      ∀ row ∈ page.rows, row.Conforms t.schema.types

/-- No file is registered for two lists of column types. A file that is registered once is not. -/
def TableSpec.Agreed (tables : List TableSpec) : Prop :=
  ∀ t ∈ tables, ∀ u ∈ tables, ∀ name, t.fileName? = some name → u.fileName? = some name →
    t.schema.types = u.schema.types

/-- It is enough to read each page once, and to try whether a table of the schema takes its rows. -/
theorem TableSpec.conforming_iff {settings : Settings} {volume : Volume} {t : TableSpec} :
    t.Conforming settings volume ↔ ∀ name ∈ t.fileName?, ∀ number < (start settings volume).extent name,
      ∀ page ∈ Page.decode? ⟨⟨0⟩, number⟩ t.schema ((start settings volume).pageBytes name number),
        ∀ row ∈ page.rows, row.accepted t.schema = true := by
  constructor
  · intro conforming name leads number inside page decoded row among
    exact Row.accepted_iff.mpr (conforming name leads number inside _ page decoded row among)
  · intro accepted name leads number inside id page decoded
    rw [Page.decode?_id ⟨⟨0⟩, number⟩ id] at decoded
    obtain ⟨read, first, rfl⟩ := Option.map_eq_some_iff.mp decoded
    obtain ⟨-, -, own, -, -⟩ := Page.of_decode?_eq_some first
    have conform : ∀ row ∈ read.rows, row.Conforms t.schema.types :=
      fun row among => Row.accepted_iff.mp (accepted name leads number inside read first row among)
    rw [← own] at conform ⊢
    exact (Page.rows_conform_iff { read with id }).mpr (read.rows_conform_iff.mp conform)

instance (settings : Settings) (volume : Volume) (t : TableSpec) : Decidable (t.Conforming settings volume) :=
  decidable_of_iff _ TableSpec.conforming_iff.symm

instance (tables : List TableSpec) : Decidable (TableSpec.Agreed tables) :=
  decidable_of_iff (∀ t ∈ tables, ∀ u ∈ tables, ∀ name ∈ t.fileName?, name ∈ u.fileName? →
    t.schema.types = u.schema.types) Iff.rfl

theorem TableSpec.Conforming.pageBytes_start {settings : Settings} {volume : Volume} {t : TableSpec}
    (conforming : t.Conforming settings volume) {name : String} (leads : t.fileName? = some name) (number : Nat)
    (inside : number < (start settings volume).extent name) :
    PageBytes t.schema.types ((start settings volume).pageBytes name number) := by
  intro id schema page types decoded
  rw [Page.decode?_congr types] at decoded
  obtain ⟨read, first, rfl⟩ := Option.map_eq_some_iff.mp decoded
  obtain ⟨shaped, -, own, -, -⟩ := Page.of_decode?_eq_some first
  have fine := conforming name leads number inside id read first
  rw [← own] at fine
  have sound : read.Sound := ⟨shaped.slots, shaped.spare, read.rows_conform_iff.mp fine⟩
  exact sound.sound_under id (types.trans (congrArg Schema.types own).symm)

namespace Engine

/-- The tables that are registered are among these, and their files have rows for their columns and no others. -/
structure Stocked (tables : List TableSpec) (e : Engine) : Prop where
  tidy : e.Tidy
  shelved : e.Shelved
  own : ∀ t ∈ tables, ∀ name, t.fileName? = some name → OwnFile name t.schema.types e
  registered : ∀ {table entry}, e.catalog.find? table = some entry →
    ∃ t ∈ tables, ∃ name, t.fileName? = some name ∧ e.volume.number? name = some table

/-- The scan is of the file of one of the tables, and its columns are those of the table. -/
def Places (tables : List TableSpec) (s : ScanOf) (e : Engine) : Prop :=
  ∃ t ∈ tables, ∃ name, t.fileName? = some name ∧ t.schema.types = s.schema.types ∧
    e.volume.number? name = some s.table

namespace Stocked

variable {tables : List TableSpec} {e e' : Engine}

theorem stocked_start {settings : Settings} {volume : Volume}
    (conforming : ∀ t ∈ tables, t.Conforming settings volume) : Stocked tables (start settings volume) where
  tidy := tidy_start settings volume
  shelved := shelved_start settings volume
  own t among _ leads := ownFile_of_stored ((conforming t among).pageBytes_start leads)
  registered found := absurd found (by simp [Engine.start, Catalog.find?, Catalog.empty])

variable (stocked : Stocked tables e)

include stocked

theorem stocked_of_effects (effects : Effects e e') (tidy : e'.Tidy) : Stocked tables e' where
  tidy := tidy
  shelved := @preserved_of_effects (fun e' => e'.Shelved) (fun shelved effect => shelved.shelved_of_effect effect) e
    e' effects
    stocked.shelved
  own t among name leads :=
    (@preserved_of_effects (fun e' => e'.Shelved ∧ OwnFile name t.schema.types e')
      (fun holds effect => ⟨holds.1.shelved_of_effect effect, holds.2.ownFile_of_effect holds.1 effect⟩) e e' effects
      ⟨stocked.shelved, stocked.own t among name leads⟩).2
  registered found := by
    rw [catalog_of_effects effects] at found
    obtain ⟨t, among, name, leads, numbered⟩ := stocked.registered found
    refine ⟨t, among, name, leads, ?_⟩
    rw [Volume.number?, (settings_of_effects effects).2]
    exact numbered

theorem guarded_of_mem {t : TableSpec} (among : t ∈ tables) {name : String} (leads : t.fileName? = some name) :
    Guarded name t.schema.types e := ⟨stocked.tidy, stocked.shelved, stocked.own t among name leads⟩

theorem places_of_find? {s : ScanOf} (found : e.catalog.find? s.table = some s.entry) : Places tables s e := by
  obtain ⟨t, among, name, leads, numbered⟩ := stocked.registered found
  have columns := (stocked.guarded_of_mem among leads).types_of_entry found numbered
  refine ⟨t, among, name, leads, ?_, numbered⟩
  rw [ScanOf.schema, Schema.types_qualified, columns]

theorem stocked_added (agreed : TableSpec.Agreed tables) {t : TableSpec} (among : t ∈ tables) {fileName : String}
    (located : e.volume.locate t.path = .ok fileName) (some : 0 < Page.capacity e.settings.pageSize t.schema) :
    Stocked tables (e.added t.schema t.name fileName) where
  tidy := ⟨stocked.tidy.own, stocked.tidy.tracked, stocked.tidy.bounded⟩
  shelved := stocked.shelved.shelved_added t.name fileName some
  own u amongTables name leads' := by
    apply (stocked.own u amongTables name leads').ownFile_added stocked.shelved t.name
    intro same
    subst same
    exact agreed t among u amongTables fileName ((t.fileName?_eq_some_iff e.volume fileName).mpr located) leads'
  registered found := by
    have leads := (t.fileName?_eq_some_iff e.volume fileName).mpr located
    rcases Catalog.find?_register_cases _ _ _ found with ⟨rfl, rfl⟩ | before
    · exact ⟨t, among, fileName, leads, e.volume.number?_openTable_self fileName⟩
    · obtain ⟨u, amongTables, name, leads', numbered⟩ := stocked.registered before
      exact ⟨u, amongTables, name, leads', (e.longer_added t.schema t.name fileName).number numbered⟩

end Stocked

/-- Whatever is asked of the store, it comes down to effects, or a table is registered. -/
theorem outcome_cases {e : Engine} (tidy : e.Tidy) (call : Call) :
    ((outcome call.act e).2.Tidy ∧ Effects e (outcome call.act e).2) ∨
      ∃ t fileName, call.table? = some t ∧ e.volume.locate t.path = .ok fileName ∧
        0 < Page.capacity e.settings.pageSize t.schema ∧
        (outcome call.act e).2 = e.added t.schema t.name fileName := by
  cases call with
  | register t =>
    have same : (outcome (Call.act (.register t)) e).2 = (outcome (createTable t.path t.schema t.name) e).2 := by
      rw [Call.act, outcome_bind]
      rcases outcome (createTable t.path t.schema t.name) e with ⟨_ | _, _⟩ <;> rfl
    rw [same]
    rcases createTable_cases t.path t.schema t.name e with same | ⟨fileName, located, some, same⟩
    · rw [same]
      exact .inl ⟨tidy, .refl⟩
    · exact .inr ⟨t, fileName, rfl, located, some, same⟩
  | step op =>
    have unfolds : Unfolds (Call.act (.step op)) := op.act_unfolds.bind fun _ => .pure ()
    exact .inl (unfolds e tidy).outcome
  | flush pages => exact .inl (flushEach_unfolds pages e tidy).outcome
  | discard p => exact .inl ⟨(tidy.orderly_forget p).tidy, effects_dropped e p (e.recency.forget p)⟩
  | release txn p => exact .inl (unlockUnless_unfolds false txn p e tidy).outcome

/-- The store has rows for the columns of its tables, and the scans are of these tables. -/
structure Supplied (tables : List TableSpec) (scans : List ScanOf) (e : Engine) : Prop extends Stocked tables e where
  places : ∀ s ∈ scans, Places tables s e

namespace Supplied

variable {tables : List TableSpec} {scans : List ScanOf} {e e' : Engine} (supplied : Supplied tables scans e)

include supplied

theorem supplied_of_effects (effects : Effects e e') (tidy : e'.Tidy) : Supplied tables scans e' where
  toStocked := supplied.toStocked.stocked_of_effects effects tidy
  places s among := by
    obtain ⟨t, amongTables, name, leads, columns, numbered⟩ := supplied.places s among
    refine ⟨t, amongTables, name, leads, columns, ?_⟩
    rw [Volume.number?, (settings_of_effects effects).2]
    exact numbered

theorem supplied_of_unfolds {α : Type} {act : Action α} (unfolds : Unfolds act) :
    Ensures act e fun _ e' => Supplied tables scans e' :=
  (unfolds e supplied.tidy).mono fun _ _ done => supplied.supplied_of_effects done.2 done.1

theorem supplied_call (agreed : TableSpec.Agreed tables) (call : Call) (among : ∀ t ∈ call.table?, t ∈ tables) :
    Supplied tables scans (outcome call.act e).2 := by
  rcases outcome_cases supplied.tidy call with ⟨tidy, effects⟩ | ⟨t, fileName, registers, located, some, same⟩
  · exact supplied.supplied_of_effects effects tidy
  · rw [same]
    refine ⟨supplied.toStocked.stocked_added agreed (among t registers) located some, ?_⟩
    intro s amongScans
    obtain ⟨u, amongTables, name, leads, columns, numbered⟩ := supplied.places s amongScans
    exact ⟨u, amongTables, name, leads, columns, (e.longer_added t.schema t.name fileName).number numbered⟩

theorem supplied_calls (agreed : TableSpec.Agreed tables) {calls : List Call}
    (among : ∀ call ∈ calls, ∀ t ∈ call.table?, t ∈ tables) :
    Supplied tables scans (calls.foldl (fun e call => (outcome call.act e).2) e) := by
  induction calls generalizing e with
  | nil => exact supplied
  | cons call rest ih =>
    obtain ⟨first, later⟩ := List.forall_mem_cons.mp among
    exact ih (supplied.supplied_call agreed call first) later

theorem getPage_conforms {s : ScanOf} (among : s ∈ scans) (number : Nat) :
    Ensures (getPage s.txn ⟨s.table, number⟩ .shared) e fun
      | .ok page, e' => Supplied tables scans e' ∧ ∀ row ∈ page.rows, (row.under s.schema).Conforms s.schema.types
      | .error _, e' => Supplied tables scans e' := by
  obtain ⟨t, amongTables, name, leads, columns, numbered⟩ := supplied.places s among
  have guarded := supplied.guarded_of_mem amongTables leads
  rw [columns] at guarded
  have scannable : Scannable name s e := ⟨guarded, numbered⟩
  refine ((scannable.getPage_conforms number).and (supplied.supplied_of_unfolds
    (getPage_unfolds s.txn ⟨s.table, number⟩ .shared))).mono ?_
  intro answer e' done
  cases answer with
  | error fault => exact done.2
  | ok page => exact ⟨done.2, fun row onPage => ⟨rfl, (done.1.2 row onPage).fits⟩⟩

end Supplied

end Engine

/-! ### Plans on such a store -/

namespace Plan

variable {tables : List TableSpec} {scans : List ScanOf}

theorem Sound.exists_follows {c : Catalog} {plan : Plan} (sound : plan.Sound c) (among : ∀ s ∈ plan.scans, s ∈ scans)
    (alarm : Fault) : ∃ goes, plan.source.Follows (Supplied tables scans) (Row.Conforms plan.schema.types)
      (plan.watched alarm) goes := by
  have passes (schema : Schema) (row : Row) (conforms : row.Conforms schema.types) : row.accepted schema = true :=
    Row.accepted_iff.mpr conforms
  induction plan with
  | rows schema list => exact ⟨_, (Source.ofRows_gives sound).follows_self.follows_watched (passes schema) alarm⟩
  | scan of =>
    have gives : (Source.ofTable of).Gives (Supplied tables scans)
        (Source.Reading (Row.Conforms of.schema.types) of) (Row.Conforms of.schema.types) :=
      Source.ofTable_gives fun e number supplied => supplied.getPage_conforms (among of (by simp [Plan.scans])) number
    exact ⟨_, gives.follows_self.follows_watched (passes of.schema) alarm⟩
  | filter condition child ih =>
    obtain ⟨goes, follows⟩ := ih sound among
    exact ⟨_, (Source.filter_follows follows condition).follows_watched (passes child.schema) alarm⟩
  | join condition left right ih ih' =>
    obtain ⟨goes, follows⟩ := ih sound.1 fun s inLeft => among s (List.mem_append_left _ inLeft)
    obtain ⟨goes', follows'⟩ := ih' sound.2 fun s inRight => among s (List.mem_append_right _ inRight)
    have joins : ∀ l r, l.Conforms left.schema.types → r.Conforms right.schema.types →
        (Row.joined (left.schema ++ right.schema) l r).Conforms (left.schema ++ right.schema).types :=
      fun _ _ first second => Row.conforms_joined first second (Schema.types_append _ _)
    exact ⟨_, (Source.join_follows follows follows' condition joins).follows_watched
      (passes (left.schema ++ right.schema)) alarm⟩
  | aggregate grouping child ih =>
    obtain ⟨goes, follows⟩ := ih sound among
    exact ⟨_, (Source.aggregate_follows follows grouping).follows_watched (passes grouping.output) alarm⟩
  | insert table txn child ih =>
    obtain ⟨goes, follows⟩ := ih sound among
    refine ⟨_, (Source.change_follows follows "Inserted" ?_).follows_watched (passes (countSchema "Inserted")) alarm⟩
    intro row e conforms supplied
    exact supplied.supplied_of_unfolds ((insert_unfolds txn conforms.fits_own_schema table).bind fun _ => .pure ())
  | delete txn child ih =>
    obtain ⟨goes, follows⟩ := ih sound among
    refine ⟨_, (Source.change_follows follows "Deleted" ?_).follows_watched (passes (countSchema "Deleted")) alarm⟩
    intro row e _ supplied
    exact supplied.supplied_of_unfolds ((delete_unfolds txn row.location).bind fun _ => .pure ())

theorem Sound.supplied_of_stocked {e : Engine} {plan : Plan} (sound : plan.Sound e.catalog)
    (stocked : Stocked tables e) :
    Supplied tables plan.scans e := by
  refine ⟨stocked, ?_⟩
  intro s among
  induction plan with
  | rows schema list => exact absurd among (by simp [scans])
  | scan of =>
    obtain rfl := List.mem_singleton.mp among
    exact stocked.places_of_find? sound
  | filter condition child ih => exact ih sound among
  | join condition left right ih ih' =>
    rcases List.mem_append.mp among with inLeft | inRight
    · exact ih sound.1 inLeft
    · exact ih' sound.2 inRight
  | aggregate grouping child ih => exact ih sound among
  | insert table txn child ih => exact ih sound among
  | delete txn child ih => exact ih sound among

end Plan

/-! ### One who uses a plan while others go on -/

namespace Cursor

/-- The replies to one who uses a cursor again and again, and the stores that he leaves, while the store is asked for
other things in between. -/
def trace {source : Source} (e : Engine) (cur : Cursor source) :
    List (List Call × Use) → List (Except Fault Reply × Engine)
  | [] => []
  | round :: rest =>
    let left := outcome round.2.act (cur, round.1.foldl (fun e call => (outcome call.act e).2) e)
    (left.1, left.2.2) :: trace left.2.2 left.2.1 rest

end Cursor

theorem Source.Follows.trace_follows {tables : List TableSpec} {scans : List ScanOf} (agreed : TableSpec.Agreed tables)
    {wanted : Row → Prop} {left right : Source} {goes : left.State → right.State → Prop}
    (follows : left.Follows (Supplied tables scans) wanted right goes) {cur : Cursor left} {cur' : Cursor right}
    (beside : cur.Beside goes wanted cur') {e : Engine} (supplied : Supplied tables scans e)
    {rounds : List (List Call × Use)} (among : ∀ round ∈ rounds, ∀ call ∈ round.1, ∀ t ∈ call.table?, t ∈ tables) :
    cur'.trace e rounds = cur.trace e rounds ∧
      ∀ reply e', (.ok reply, e') ∈ cur.trace e rounds → ∀ row ∈ reply.given, wanted row := by
  induction rounds generalizing cur cur' e with
  | nil => simp [Cursor.trace]
  | cons round rest ih =>
    obtain ⟨now, later⟩ := List.forall_mem_cons.mp among
    have alongside := round.2.act_alongside follows beside (supplied.supplied_calls agreed now)
    obtain ⟨same, kept⟩ := ih alongside.goes alongside.kept later
    constructor
    · simp only [Cursor.trace]
      rw [← alongside.answer, ← alongside.engine, same]
    · intro reply e' drawn
      rcases List.mem_cons.mp drawn with first | drawn
      · exact alongside.yields reply (congrArg Prod.fst first).symm
      · exact kept reply e' drawn

namespace Plan

/-- Of whatever sources a plan is made, and whatever is asked of it and of the store meanwhile: none of its sources
gives a row that a table of the schema it reports would not take, so that a watch behind each of them, whichever fault
it would raise, changes neither a reply nor the store. The rows that are answered are stored by such a table as they
are. All tables are registered for the rows that their files have, each file once or else always for the same column
types. -/
theorem rows_conform_behind_every_source (settings : Settings) (volume : Volume) (calls : List Call)
    (rounds : List (List Call × Use)) (plan : Plan)
    (agreed : TableSpec.Agreed ((calls ++ rounds.flatMap Prod.fst).filterMap Call.table?))
    (conforming : ∀ t ∈ (calls ++ rounds.flatMap Prod.fst).filterMap Call.table?, t.Conforming settings volume)
    (sound : plan.Sound (Call.after settings volume calls).catalog) :
    (∀ alarm, (Cursor.new (plan.watched alarm)).trace (Call.after settings volume calls) rounds =
      (Cursor.new plan.source).trace (Call.after settings volume calls) rounds) ∧
    ∀ reply e, (.ok reply, e) ∈ (Cursor.new plan.source).trace (Call.after settings volume calls) rounds →
      ∀ row ∈ reply.given, row.Conforms plan.schema.types ∧
        ∀ schema : Schema, schema.types = plan.schema.types → row.Storable schema := by
  set tables := (calls ++ rounds.flatMap Prod.fst).filterMap Call.table?
  have among : ∀ call ∈ calls ++ rounds.flatMap Prod.fst, ∀ t ∈ call.table?, t ∈ tables :=
    fun call asked t registers => List.mem_filterMap.mpr ⟨call, asked, registers⟩
  have started : Supplied tables [] (start settings volume) := ⟨.stocked_start conforming, by simp⟩
  have stocked : Stocked tables (Call.after settings volume calls) :=
    (started.supplied_calls agreed fun call asked => among call (List.mem_append_left _ asked)).toStocked
  have meanwhile : ∀ round ∈ rounds, ∀ call ∈ round.1, ∀ t ∈ call.table?, t ∈ tables :=
    fun round asked call inside =>
      among call (List.mem_append_right _ (List.mem_flatMap.mpr ⟨round, asked, inside⟩))
  constructor
  · intro alarm
    obtain ⟨goes, follows⟩ := sound.exists_follows (fun _ among => among) alarm
    exact (follows.trace_follows agreed (Cursor.beside_new follows) (sound.supplied_of_stocked stocked) meanwhile).1
  · obtain ⟨goes, follows⟩ := sound.exists_follows (fun _ among => among) .poolFull
    have kept := (follows.trace_follows agreed (Cursor.beside_new follows) (sound.supplied_of_stocked stocked)
      meanwhile).2
    intro reply e drawn row given
    have conforms := kept reply e drawn row given
    refine ⟨conforms, ?_⟩
    intro schema types
    rw [← types] at conforms
    exact conforms.to_storable

def numbers : Volume := Volume.empty.put "a.dat" ([3, 0, 0, 0, 7, 0, 0, 0, 9] ++ Bytes.zeros 7)

def tags : Schema := ⟨[⟨some "tag", .text 2⟩, ⟨some "n", .int⟩]⟩

def tagged : List Call :=
  [.register ⟨"a.dat", Course.number, "a"⟩, .register ⟨"b.dat", tags, "b"⟩,
    .step (.insert ⟨1⟩ ⟨2⟩ tags [.text "p", .int 7]), .step (.commit ⟨1⟩),
    .step (.insert ⟨1⟩ ⟨2⟩ tags [.text "q", .int 8]), .step (.commit ⟨1⟩)]

/-- To each tag the sum of the numbers that are not less than its own. -/
def sums : Query :=
  .aggregate (some 1) 0 .sum
    (.filter ⟨2, .gt, .int 0⟩ (.join ⟨0, .ge, 1⟩ (.scan ⟨1⟩ ⟨2⟩ (some "x")) (.scan ⟨2⟩ ⟨2⟩ none)))

/-- While the sums are drawn, another file is registered and gets a tag. -/
def drawings : List (List Call × Use) :=
  [([], .start), ([.register ⟨"c.dat", tags, "c"⟩, .step (.insert ⟨3⟩ ⟨3⟩ tags [.text "r", .int 1])], .take 1),
    ([.step (.commit ⟨3⟩)], .rewind), ([], .collect)]

/-- The values in each reply that is no fault. -/
def given (drawn : List (Except Fault Reply × Engine)) : List (Option (List (List Value))) :=
  drawn.map fun left => left.1.toOption.map fun reply => reply.given.map Row.values

def sumsGiven : List (Option (List (List Value))) :=
  [some [], some [[.text "p", .int 16]], some [], some [[.text "p", .int 16], [.text "q", .int 9]]]

/-- The sums are given behind whatever watch, and the first of them can be put among the tags. -/
theorem sums_are_stored_as_tags :
    ∃ plan, ofQuery (Call.after Course.small numbers tagged).catalog sums = .ok plan ∧
      (∀ alarm, given ((Cursor.new (plan.watched alarm)).trace (Call.after Course.small numbers tagged) drawings) =
        sumsGiven) ∧
      ∃ row : Row, row.values = [.text "p", .int 16] ∧ row.Storable tags := by
  have drawn : (ofQuery (Call.after Course.small numbers tagged).catalog sums).toOption.map (fun plan =>
      (plan.schema.types, given ((Cursor.new plan.source).trace (Call.after Course.small numbers tagged) drawings))) =
      some (tags.types, sumsGiven) := by decide +kernel
  cases made : ofQuery (Call.after Course.small numbers tagged).catalog sums with
  | error fault =>
    rw [made] at drawn
    cases drawn
  | ok plan =>
    rw [made] at drawn
    obtain ⟨types, answers⟩ := Prod.mk.inj (Option.some.inj drawn)
    obtain ⟨watched, stored⟩ := rows_conform_behind_every_source Course.small numbers tagged drawings plan
      (by decide +kernel) (by decide +kernel) (sound_of_ofQuery sums made)
    refine ⟨plan, rfl, ?_, ?_⟩
    · intro alarm
      rw [watched alarm]
      exact answers
    · have taken : some [[.text "p", .int 16]] ∈ sumsGiven := by simp [sumsGiven]
      rw [← answers] at taken
      obtain ⟨⟨answer, e⟩, among, same⟩ := List.mem_map.mp taken
      obtain ⟨reply, answered, values⟩ := Option.map_eq_some_iff.mp same
      obtain ⟨row, only, same'⟩ := List.map_eq_singleton_iff.mp values
      cases answer with
      | error fault => cases answered
      | ok _ =>
        cases answered
        exact ⟨row, same', (stored reply e among row (by simp [only])).2 tags types.symm⟩

end Plan

end RowStore
