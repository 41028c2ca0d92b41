import RowStore.Proofs.Engine.OwnFile
import RowStore.Proofs.Plan.Lockstep
/-!
# Tables in each other's place

A table may be registered under a name or for a file that is registered already, with any schema, and the pages in
memory are left as they are. So a page in memory may belong to a table that is registered no more, or have other
column types than its table has now. Where that is so, the page was in memory when its table was displaced and has
been there since. A file in which nobody else has written, and which is always registered with the same column
types, has nothing in it but rows for these types, and a scan of it gives no others.
-/

namespace RowStore

namespace Engine

/-- The table of the page is registered, and has the column types of the page. -/
def AtHome (e : Engine) (p : PageId) (page : Page) : Prop :=
  ∃ entry, e.catalog.find? p.table = some entry ∧ page.schema.types = entry.schema.types

/-- A page in memory that was not there with the schema it has is at home. -/
def Dressed (e e' : Engine) : Prop :=
  ∀ p page, e'.resident.get? p = some page →
    (∃ before, e.resident.get? p = some before ∧ before.schema = page.schema) ∨ e'.AtHome p page

namespace Dressed

variable {e e₁ e₂ : Engine}

theorem dressed_insert (dressed : Dressed e e₁) (catalog : e₂.catalog = e₁.catalog) {p : PageId} {page : Page}
    (resident : e₂.resident = e₁.resident.insert page.id page) (id : page.id = p)
    (fine : (∃ before, e.resident.get? p = some before ∧ before.schema = page.schema) ∨ e₁.AtHome p page) :
    Dressed e e₂ := by
  intro q copy here
  rw [resident, FinMap.get?_insert] at here
  rw [AtHome, catalog]
  split at here
  · rename_i same
    cases here
    rw [same, id]
    exact fine
  · exact dressed q copy here

theorem dressed_of_effect (dressed : Dressed e e₁) (shelved : e₁.Shelved) (effect : Effect e₁ e₂) : Dressed e e₂ := by
  cases effect with
  | aside recency locks => exact dressed
  | dropped p =>
    intro q page here
    rw [FinMap.get?_erase] at here
    split at here
    · exact absurd here (by simp)
    · exact dressed q page here
  | @loaded p entry g g' page found opened reads =>
    obtain ⟨-, -, -, decoded, -⟩ := TableFile.read_eq_ok_iff.mp reads
    obtain ⟨-, id, schema, -, -⟩ := Page.of_decode?_eq_some decoded
    obtain ⟨g₀, opened₀, -, schema₀, -⟩ := shelved.current found
    cases opened.symm.trans opened₀
    exact dressed.dressed_insert rfl rfl id (.inr ⟨entry, found, by rw [schema, schema₀]⟩)
  | @edited p page edited here edit =>
    obtain ⟨id, schema, -⟩ := edit.frame_eq
    refine dressed.dressed_insert rfl rfl (id.trans (shelved.pages here).id) ?_
    rw [AtHome, schema]
    exact dressed p page here
  | @written p page entry g g' contents here found opened writes =>
    exact dressed.dressed_insert rfl rfl (show page.markClean.id = p from (shelved.pages here).id) (dressed p page here)
  | extended found opened => exact dressed

end Dressed

/-- A page that was not in memory with the schema it has is at home. -/
theorem dressed_of_effects {e e' : Engine} (shelved : e.Shelved) (effects : Effects e e') : Dressed e e' := by
  have both : e'.Shelved ∧ Dressed e e' := by
    refine @preserved_of_effects (fun e' => e'.Shelved ∧ Dressed e e') ?_ e e' effects
      ⟨shelved, fun _ page here => .inl ⟨page, here, rfl⟩⟩
    rintro e₁ e₂ ⟨shelved₁, dressed⟩ effect
    exact ⟨shelved₁.shelved_of_effect effect, dressed.dressed_of_effect shelved₁ effect⟩
  exact both.2

end Engine

open Engine

namespace Course

/-- The page is in memory with that schema, and its table has other column types or is registered no more. -/
def Displaced (c : Course) (p : PageId) (schema : Schema) : Prop :=
  ∃ page, c.engine.resident.get? p = some page ∧ page.schema = schema ∧ ¬c.engine.AtHome p page

/-- Another table has been registered, the page was in memory and at home before it, and has been displaced since. -/
def DisplacedBy (settings : Settings) (volume : Volume) (moves : List Move) (p : PageId) (schema : Schema) : Prop :=
  ∃ before path types name later, moves = before ++ .register path types name :: later ∧
    (∃ page, (after settings volume before).engine.resident.get? p = some page ∧ page.schema = schema ∧
      (after settings volume before).engine.AtHome p page) ∧
    ∀ rest, rest <+: later → (after settings volume (before ++ .register path types name :: rest)).Displaced p schema

theorem displacedBy_of_displaced (settings : Settings) (volume : Volume) (moves : List Move) {p : PageId}
    {schema : Schema} (displaced : (after settings volume moves).Displaced p schema) : DisplacedBy settings volume moves p schema := by
  induction moves using List.reverseRecOn with
  | nil =>
    obtain ⟨page, here, -⟩ := displaced
    exact absurd here (by simp [after, start])
  | append_singleton moves move ih =>
    have kept := kept_after settings volume moves
    have shelved := shelved_after settings volume moves
    have extended : (after settings volume moves).Displaced p schema →
        DisplacedBy settings volume (moves ++ [move]) p schema := by
      intro before
      obtain ⟨earlier, path, types, name, later, rfl, was, since⟩ := ih before
      refine ⟨earlier, path, types, name, later ++ [move], by simp, was, ?_⟩
      intro rest among
      rcases List.prefix_concat_iff.mp among with rfl | earlier
      · rw [← List.cons_append, ← List.append_assoc]
        exact displaced
      · exact since rest earlier
    obtain ⟨page, here, rfl, away⟩ := id displaced
    rw [after_concat] at here away
    cases move with
    | register path types name =>
      obtain ⟨-, resident, -⟩ := (createTable_spares kept.regular path types name).outcome
      rw [Course.next, resident] at here
      by_cases home : (after settings volume moves).engine.AtHome p page
      · refine ⟨moves, path, types, name, [], rfl, ⟨page, here, rfl, home⟩, ?_⟩
        intro rest among
        rw [List.prefix_nil.mp among]
        exact displaced
      · exact extended ⟨page, here, rfl, home⟩
    | step op =>
      have effects := kept.effects_step op
      rcases dressed_of_effects shelved effects _ _ here with ⟨before, there, same⟩ | home
      · refine extended ⟨before, there, same, ?_⟩
        rintro ⟨entry, found, types⟩
        refine away ⟨entry, ?_, by rw [← same, types]⟩
        rw [catalog_of_effects effects]
        exact found
      · exact absurd home away

end Course

/-! ### A table that is always registered alike -/

/-- What every move preserves, any number of them do. -/
theorem Course.foldl_keeps {kept : Engine → Prop} {fine : Move → Prop}
    (each : ∀ (c : Course) move, kept c.engine → fine move → kept (c.next move).engine) {c : Course}
    (keeps : kept c.engine) {moves : List Move} (all : ∀ move ∈ moves, fine move) :
    kept (moves.foldl Course.next c).engine := by
  induction moves generalizing c with
  | nil => exact keeps
  | cons move rest ih =>
    exact ih (each c move keeps (all move List.mem_cons_self))
      fun other later => all other (List.mem_cons_of_mem _ later)

/-- Whoever registers a table for the file gives it these column types. -/
def Move.Agrees (name : String) (types : List ColType) : Move → Prop
  | .register path schema _ => Volume.empty.locate path = .ok name → schema.types = types
  | .step _ => True

namespace Engine

/-- Nobody else has written the file, and the engine is as it should be. -/
structure Guarded (name : String) (types : List ColType) (e : Engine) : Prop where
  tidy : e.Tidy
  shelved : e.Shelved
  own : OwnFile name types e

theorem Effect.number?_eq {e e' : Engine} (effect : Effect e e') (name : String) :
    e'.volume.number? name = e.volume.number? name := by
  cases effect <;> rfl

namespace Guarded

variable {name : String} {types : List ColType} {e e' : Engine} (guarded : Guarded name types e)

include guarded

theorem guarded_of_effects (effects : Effects e e') (tidy : e'.Tidy) : Guarded name types e' := by
  have kept := @preserved_of_effects (fun e' => e'.Shelved ∧ OwnFile name types e')
    (fun holds effect => ⟨holds.1.shelved_of_effect effect, holds.2.ownFile_of_effect holds.1 effect⟩) e e' effects
    ⟨guarded.shelved, guarded.own⟩
  exact ⟨tidy, kept.1, kept.2⟩

omit guarded in
theorem guarded_next {c : Course} (guarded : Guarded name types c.engine) {move : Move}
    (agrees : move.Agrees name types) :
    Guarded name types (c.next move).engine := by
  cases move with
  | register path schema tableName =>
    rcases createTable_cases path schema tableName c.engine with same | ⟨fileName, located, some, same⟩
    · rw [Course.next, same]
      exact guarded
    · rw [Course.next, same]
      have tidy := guarded.tidy
      have types : fileName = name → schema.types = types := by
        rintro rfl
        exact agrees (Volume.locate_eq_ok _ _ _ _ located)
      exact ⟨⟨tidy.own, tidy.tracked, tidy.bounded⟩, guarded.shelved.shelved_added tableName fileName some,
        guarded.own.ownFile_added guarded.shelved tableName types⟩
  | step op =>
    obtain ⟨tidy, effects⟩ := (op.act_unfolds c.engine guarded.tidy).outcome
    exact guarded.guarded_of_effects effects tidy

/-- A table of the file has the column types, if it is registered. -/
theorem types_of_entry {table : TableId} {entry : TableEntry} (found : e.catalog.find? table = some entry)
    (numbered : e.volume.number? name = some table) : entry.schema.types = types := by
  obtain ⟨g, opened, own, schema, -⟩ := guarded.shelved.current found
  have number := (guarded.shelved.files opened).number
  rw [own] at number
  rw [← schema]
  exact guarded.own.files opened (Volume.number?_inj number numbered)

end Guarded

/-- The row is one of the scan, with one value for every column that may be stored there. -/
structure Conforming (s : ScanOf) (row : Row) : Prop where
  schema : row.schema = s.schema
  arity : row.values.length = s.schema.columns.length
  fits : Row.Fits row.values s.schema.types

/-- A scan is of the file, and nobody else has written it. -/
structure Scannable (name : String) (s : ScanOf) (e : Engine) : Prop where
  guarded : Guarded name s.schema.types e
  number : e.volume.number? name = some s.table

namespace Scannable

variable {name : String} {s : ScanOf} {e e' : Engine} (scannable : Scannable name s e)

include scannable

theorem scannable_of_effects (effects : Effects e e') (tidy : e'.Tidy) : Scannable name s e' where
  guarded := scannable.guarded.guarded_of_effects effects tidy
  number := @preserved_of_effects (fun e' => e'.volume.number? name = some s.table)
    (fun holds effect => (effect.number?_eq name).trans holds) e e' effects scannable.number

omit scannable in
theorem scannable_next {c : Course} (scannable : Scannable name s c.engine) {move : Move}
    (agrees : move.Agrees name s.schema.types) : Scannable name s (c.next move).engine := by
  refine ⟨scannable.guarded.guarded_next agrees, ?_⟩
  cases move with
  | register path schema tableName =>
    rcases createTable_cases path schema tableName c.engine with same | ⟨fileName, -, -, same⟩
    · rw [Course.next, same]
      exact scannable.number
    · rw [Course.next, same]
      exact c.engine.volume.number?_openTable fileName name s.table scannable.number
  | step op =>
    obtain ⟨tidy, effects⟩ := (op.act_unfolds c.engine scannable.guarded.tidy).outcome
    exact (scannable.scannable_of_effects effects tidy).number

theorem getPage_conforms (number : Nat) : Ensures (getPage s.txn ⟨s.table, number⟩ .shared) e fun
    | .ok page, e' => Scannable name s e' ∧ ∀ row ∈ page.rows, Conforming s (row.under s.schema)
    | .error _, e' => Scannable name s e' := by
  refine (getPage_effects scannable.guarded.tidy s.txn ⟨s.table, number⟩ .shared).mono ?_
  rintro (fault | page) e' ⟨tidy, effects, gotten⟩
  · exact scannable.scannable_of_effects effects tidy
  · have scannable' := scannable.scannable_of_effects effects tidy
    obtain ⟨-, here⟩ := gotten page rfl
    obtain ⟨sound, same⟩ := scannable'.guarded.own.copies here scannable'.number
    refine ⟨scannable', fun row among => ?_⟩
    have fits : Row.Fits row.values s.schema.types := same ▸ sound.fits_of_mem_rows among
    have arity : row.values.length = s.schema.columns.length := by simpa [Schema.types] using fits.length_eq
    exact ⟨rfl, arity, fits⟩

omit scannable in
theorem gives_conforming (name : String) (s : ScanOf) :
    (Source.ofTable s).Gives (Scannable name s) (Source.Reading (Conforming s) s) (Conforming s) :=
  Source.ofTable_gives fun _ number scannable => scannable.getPage_conforms number

end Scannable

end Engine

open Engine

namespace Course

theorem guarded_after (settings : Settings) {volume : Volume} {name : String} {types : List ColType}
    (empty : volume.contents name = []) {moves : List Move} (agree : ∀ move ∈ moves, move.Agrees name types) :
    Guarded name types (after settings volume moves).engine := by
  have start : Guarded name types (start settings volume) :=
    ⟨tidy_start settings volume, shelved_start settings volume, ownFile_start settings types empty⟩
  exact foldl_keeps (fun c move guarded agrees => guarded.guarded_next agrees) start agree

/-- The replies to one who uses a cursor again and again, while others make their moves in between. -/
def replies {source : Source} (c : Course) (cur : Cursor source) : List (List Move × Use) → List (Except Fault Reply)
  | [] => []
  | (moves, use) :: rest =>
    let c := moves.foldl next c
    let (reply, cur, engine) := outcome use.act (cur, c.engine)
    reply :: replies { c with engine } cur rest

/-- However others go on meanwhile, a reader of the file gets rows for the columns of the scan. -/
theorem replies_conform {name : String} {s : ScanOf} {c : Course} (scannable : Scannable name s c.engine)
    {cur : Cursor (Source.ofTable s)} (bears : cur.Bears (Source.Reading (Conforming s) s) (Conforming s))
    {uses : List (List Move × Use)} (agree : ∀ round ∈ uses, ∀ move ∈ round.1, move.Agrees name s.schema.types) :
    ∀ reply, .ok reply ∈ c.replies cur uses → ∀ row ∈ reply.given, Conforming s row := by
  induction uses generalizing c cur with
  | nil => simp [replies]
  | cons round rest ih =>
    obtain ⟨moves, use⟩ := round
    have later : Scannable name s (moves.foldl next c).engine :=
      foldl_keeps (fun c move scannable agrees => scannable.scannable_next agrees) scannable
        (agree _ List.mem_cons_self)
    obtain ⟨bears', scannable', given⟩ := use.act_passes_wanted (Scannable.gives_conforming name s) bears later
    intro reply among
    rcases List.mem_cons.mp among with first | among
    · exact given reply first.symm
    · exact ih scannable' bears' (fun round later => agree round (List.mem_cons_of_mem _ later)) reply among

/-- A page in memory whose table is not registered with its column types has been displaced by another table.
A scan of a file that was empty at first and has always been registered with the same column types gives
nothing but rows for its columns, whatever else there is in memory. -/
theorem pages_and_rows_are_of_their_tables (settings : Settings) (volume : Volume) (moves : List Move) :
    (∀ p page, (after settings volume moves).engine.resident.get? p = some page →
      (after settings volume moves).engine.AtHome p page ∨ DisplacedBy settings volume moves p page.schema) ∧
    ∀ (name : String) (types : List ColType), volume.contents name = [] → (∀ move ∈ moves, move.Agrees name types) →
      ∀ s : ScanOf, (after settings volume moves).engine.catalog.find? s.table = some s.entry →
        (after settings volume moves).engine.volume.number? name = some s.table →
        ∀ uses : List (List Move × Use), (∀ round ∈ uses, ∀ move ∈ round.1, move.Agrees name types) →
          ∀ reply, .ok reply ∈ (after settings volume moves).replies (.new (Source.ofTable s)) uses →
            ∀ row ∈ reply.given, row.schema = s.schema ∧ row.values.length = s.schema.columns.length ∧
              Row.Fits row.values s.schema.types := by
  refine ⟨?_, ?_⟩
  · intro p page here
    by_cases home : (after settings volume moves).engine.AtHome p page
    · exact .inl home
    · exact .inr (displacedBy_of_displaced settings volume moves ⟨page, here, rfl, home⟩)
  · intro name types empty agree s found number uses agree' reply among row given
    have guarded := guarded_after settings empty agree
    have columns : s.schema.types = types := by
      rw [ScanOf.schema, Schema.types_qualified, guarded.types_of_entry found number]
    subst columns
    have bears := Cursor.bears_new (Scannable.gives_conforming name s)
    obtain ⟨schema, arity, fits⟩ := replies_conform ⟨guarded, number⟩ bears agree' reply among row given
    exact ⟨schema, arity, fits⟩

/-- A number is in a file, and the file is registered again under the same name with two columns. -/
def widened : List Move :=
  [.register "a.dat" number "t", .step (.insert ⟨1⟩ ⟨1⟩ number [.int 7]), .step (.commit ⟨1⟩),
    .register "a.dat" ⟨[⟨some "n", .int⟩, ⟨some "m", .int⟩]⟩ "t"]

/-- A scan of the table that is there now. -/
def pairs : ScanOf := ⟨⟨1⟩, ⟨1, ⟨[⟨some "n", .int⟩, ⟨some "m", .int⟩]⟩, "t"⟩, "t", ⟨2⟩⟩

/-- So the page in memory has one column where its table has two, and so has the row that is drawn from it. -/
theorem number_is_drawn_for_two_columns :
    (∃ page, (after small .empty widened).engine.resident.get? ⟨⟨1⟩, 0⟩ = some page ∧
      ¬(after small .empty widened).engine.AtHome ⟨⟨1⟩, 0⟩ page) ∧
    (after small .empty widened).engine.catalog.find? pairs.table = some pairs.entry ∧
    ((after small .empty widened).replies (.new (Source.ofTable pairs)) [([], .start), ([], .take 2)]).map
      (fun reply => reply.toOption.map Reply.given) =
        [some [], some [⟨pairs.schema, [.int 7], some ⟨⟨⟨1⟩, 0⟩, 0⟩⟩]] := by
  have found : (after small .empty widened).engine.catalog.find? pairs.table = some pairs.entry := by decide +kernel
  have types : ((after small .empty widened).engine.resident.get? ⟨⟨1⟩, 0⟩).map (Schema.types ∘ Page.schema) =
      some [.int] := by decide +kernel
  obtain ⟨page, here, columns⟩ := Option.map_eq_some_iff.mp types
  refine ⟨⟨page, here, ?_⟩, found, by decide +kernel⟩
  rintro ⟨entry, found', same⟩
  cases found.symm.trans found'
  exact absurd (columns.symm.trans same) (by decide)

/-- Another file is registered, and a number is in it. -/
def widenedBeside : List Move :=
  widened ++ [.register "b.dat" number "u", .step (.insert ⟨2⟩ ⟨2⟩ number [.int 8])]

def numbersBeside : ScanOf := ⟨⟨2⟩, ⟨2, number, "u"⟩, "u", ⟨2⟩⟩

/-- The one page has been displaced, and what is drawn from the other file is a number. -/
theorem number_is_drawn_beside :
    DisplacedBy small .empty widenedBeside ⟨⟨1⟩, 0⟩ number ∧
    ∃ reply row, .ok reply ∈ (after small .empty widenedBeside).replies (.new (Source.ofTable numbersBeside))
        [([], .start), ([.step (.delete ⟨2⟩ (some ⟨⟨⟨2⟩, 0⟩, 1⟩))], .take 2)] ∧ row ∈ reply.given ∧
      row.values = [.int 8] ∧ row.schema = numbersBeside.schema ∧
      row.values.length = numbersBeside.schema.columns.length ∧ Row.Fits row.values numbersBeside.schema.types := by
  obtain ⟨pages, rows⟩ := pages_and_rows_are_of_their_tables small .empty widenedBeside
  constructor
  · have schema : ((after small .empty widenedBeside).engine.resident.get? ⟨⟨1⟩, 0⟩).map Page.schema =
        some number := by decide +kernel
    have found : ((after small .empty widenedBeside).engine.catalog.find? ⟨1⟩).map (Schema.types ∘ TableEntry.schema) =
        some [.int, .int] := by decide +kernel
    obtain ⟨page, here, same⟩ := Option.map_eq_some_iff.mp schema
    rcases pages _ page here with ⟨entry, found', home⟩ | displaced
    · rw [found', Option.map_some, Function.comp, ← home, same] at found
      exact absurd found (by decide)
    · rw [← same]
      exact displaced
  · let uses : List (List Move × Use) := [([], .start), ([.step (.delete ⟨2⟩ (some ⟨⟨⟨2⟩, 0⟩, 1⟩))], .take 2)]
    let row : Row := ⟨numbersBeside.schema, [.int 8], some ⟨⟨⟨2⟩, 0⟩, 0⟩⟩
    have drawn : ((after small .empty widenedBeside).replies (.new (Source.ofTable numbersBeside)) uses).any
        (fun reply => reply.toOption.any fun reply => decide (row ∈ reply.given)) = true := by decide +kernel
    obtain ⟨reply, among, given⟩ := List.any_eq_true.mp drawn
    obtain ⟨answer, rfl, here⟩ : ∃ answer, reply = .ok answer ∧ row ∈ answer.given := by
      cases reply with
      | error fault => exact absurd given (by simp [Except.toOption])
      | ok answer => exact ⟨answer, rfl, by simpa [Except.toOption] using given⟩
    have other : Volume.empty.locate "a.dat" = .ok "a.dat" := by decide +kernel
    have agree : ∀ move ∈ widenedBeside, move.Agrees "b.dat" [.int] := by
      simp [widenedBeside, widened, Move.Agrees, other, Schema.types, Course.number]
    have agree' : ∀ round ∈ uses, ∀ move ∈ round.1, move.Agrees "b.dat" [.int] := by
      simp [uses, Move.Agrees]
    have found : (after small .empty widenedBeside).engine.catalog.find? numbersBeside.table =
        some numbersBeside.entry := by decide +kernel
    have number : (after small .empty widenedBeside).engine.volume.number? "b.dat" = some numbersBeside.table := by
      decide +kernel
    exact ⟨answer, row, among, here, rfl,
      rows "b.dat" [.int] rfl agree numbersBeside found number uses agree' answer among row here⟩

end Course

end RowStore
