import Mathlib.Data.List.Induction
import RowStore.Proofs.Plan.Sources
/-!
# What a plan means

What a plan means depends on nothing but the rows of the tables that it reads: a scan means the rows of
its table, a filter those of them that pass, a join for every row of the left side in turn all that match
it of the right side, and an aggregate one row for each group, in the order in which the groups were first
seen. Nothing but a sum that is too large can be wrong with it.
-/

namespace RowStore

/-! ### Groups -/

namespace Grouping

/-- What decides which group the row belongs to. -/
def keyOf (g : Grouping) (row : Row) : Option Value := g.groupBy.bind row.value?

def amountOf (g : Grouping) (row : Row) : Option Int32 := (row.value? g.field).bind Value.int?

def tallyOf (g : Grouping) (rows : List Row) : Tally := rows.foldl (fun tally row => tally.add (g.amountOf row)) .empty

def groupsOf (g : Grouping) (rows : List Row) : Groups :=
  (rows.map g.keyOf).eraseDups.map fun key => (key, g.tallyOf (rows.filter fun row => g.keyOf row = key))

/-- One row for each group of the rows. -/
def summarised (g : Grouping) (rows : List Row) : Except Fault (List Row) := g.results (g.groupsOf rows)

end Grouping

theorem List.eraseDups_concat {α : Type} [BEq α] [LawfulBEq α] (list : List α) (a : α) :
    (list ++ [a]).eraseDups = if a ∈ list then list.eraseDups else list.eraseDups ++ [a] := by
  rw [List.eraseDups_append]
  split
  · rename_i among
    simp [List.removeAll, among]
  · rename_i fresh
    simp [List.removeAll, fresh, List.eraseDups_cons]

theorem List.nodup_eraseDups {α : Type} [BEq α] [LawfulBEq α] (list : List α) : list.eraseDups.Nodup := by
  induction list using List.reverseRecOn with
  | nil => exact List.nodup_nil
  | append_singleton rest a ih =>
    rw [List.eraseDups_concat]
    split
    · exact ih
    · rename_i fresh
      refine List.nodup_append.mpr ⟨ih, by simp, ?_⟩
      rintro other among last here rfl
      rw [List.mem_singleton.mp here, List.mem_eraseDups] at among
      exact fresh among

/-- A row that is added counts in its group, which is new if nothing was known of it. -/
theorem Groups.add_map (keys : List (Option Value)) (tally : Option Value → Tally) (key : Option Value)
    (n : Option Int32) (distinct : keys.Nodup) (fresh : key ∉ keys → tally key = .empty) :
    Groups.add (keys.map fun k => (k, tally k)) key n =
      (if key ∈ keys then keys else keys ++ [key]).map fun k => (k, if k = key then (tally k).add n else tally k) := by
  induction keys with
  | nil => simp [Groups.add, fresh]
  | cons first rest ih =>
    obtain ⟨apart, distinct⟩ := List.nodup_cons.mp distinct
    rw [List.map_cons, Groups.add]
    by_cases same : first = key
    · subst same
      rw [if_pos rfl, if_pos List.mem_cons_self, List.map_cons, if_pos rfl]
      congr 1
      apply List.map_congr_left
      intro k among
      rw [if_neg]
      rintro rfl
      exact apart among
    · have other : key ∈ first :: rest ↔ key ∈ rest := by simp [Ne.symm same]
      rw [if_neg same, ih distinct fun absent => fresh fun among => absent (other.mp among)]
      by_cases among : key ∈ rest
      · rw [if_pos among, if_pos (other.mpr among), List.map_cons, if_neg same]
      · rw [if_neg among, if_neg fun here => among (other.mp here), List.cons_append, List.map_cons, if_neg same]

namespace Grouping

variable (g : Grouping)

theorem groupsOf_concat (rows : List Row) (row : Row) :
    g.groupsOf (rows ++ [row]) = (g.groupsOf rows).add (g.keyOf row) (g.amountOf row) := by
  rw [groupsOf, groupsOf, Groups.add_map _ (fun key => g.tallyOf (rows.filter fun row => g.keyOf row = key)) _ _
    (List.nodup_eraseDups _)]
  · rw [List.map_append, List.map_singleton, List.eraseDups_concat]
    simp only [List.mem_eraseDups]
    apply List.map_congr_left
    intro key _
    rw [List.filter_append, tallyOf, tallyOf, List.foldl_append]
    by_cases same : g.keyOf row = key
    · simp [same]
    · simp [same, Ne.symm same]
  · intro absent
    rw [List.mem_eraseDups, List.mem_map] at absent
    rw [List.filter_eq_nil_iff.mpr]
    · rfl
    · intro other among same
      exact absent ⟨other, among, of_decide_eq_true same⟩

/-- The fields that decide on the groups and are summarised exist, and there is a column for each of them in
the results. -/
structure Within (types : List ColType) : Prop where
  field : g.field < types.length
  whole : g.groupBy = none → g.output.types = [.int]
  grouped : ∀ i, g.groupBy = some i → ∃ type, types[i]? = some type ∧ g.output.types = [type, .int]

variable {g}

theorem within_of_new {input : Schema} {groupBy : Option Nat} {field : Nat} {summary : Summary}
    (made : new input groupBy field summary = .ok g) : g.Within input.types := by
  rw [new] at made
  split at made
  · exact absurd made (by simp)
  · rename_i column known
    have inside : field < input.types.length := by
      obtain ⟨inside, -⟩ := List.getElem?_eq_some_iff.mp known
      rw [Schema.types, List.length_map]
      exact inside
    split at made
    · exact absurd made (by simp)
    · split at made
      · cases made
        exact ⟨inside, fun _ => rfl, fun i same => absurd same (by simp)⟩
      · split at made
        · exact absurd made (by simp)
        · rename_i i _ key known'
          cases made
          refine ⟨inside, fun same => absurd same (by simp), ?_⟩
          rintro _ ⟨⟩
          refine ⟨key.type, ?_, rfl⟩
          rw [Schema.types, List.getElem?_map, known', Option.map_some]

end Grouping

theorem Row.Conforms.exists_value? {types : List ColType} {row : Row} (conforms : row.Conforms types) {i : Nat}
    {type : ColType} (known : types[i]? = some type) :
    ∃ value, row.value? i = some value ∧ value.check type = .ok () := by
  have fits := conforms.fits
  rw [Row.value?]
  clear conforms
  generalize row.values = values at fits
  induction fits generalizing i with
  | nil => simp at known
  | cons first _ ih =>
    cases i with
    | zero =>
      cases known
      exact ⟨_, rfl, first⟩
    | succ i => exact ih known

namespace Grouping

variable {g : Grouping} {types : List ColType} {row : Row}

theorem fieldOf_eq {i : Nat} {value : Value} (found : row.value? i = some value) : fieldOf row i = .ok value := by
  rw [fieldOf, found]

theorem keyFields_eq (within : g.Within types) (conforms : row.Conforms types) :
    g.groupBy.mapM (fieldOf row) = .ok (g.keyOf row) := by
  rw [keyOf]
  cases by_ : g.groupBy with
  | none => rfl
  | some i =>
    obtain ⟨type, known, -⟩ := within.grouped i by_
    obtain ⟨key, found, -⟩ := conforms.exists_value? known
    rw [Option.mapM_some, fieldOf_eq found, Option.bind_some, found]
    rfl

theorem exists_amount (within : g.Within types) (conforms : row.Conforms types) :
    ∃ amount, fieldOf row g.field = .ok amount ∧ amount.int? = g.amountOf row := by
  obtain ⟨amount, found, -⟩ := conforms.exists_value? (List.getElem?_eq_getElem within.field)
  exact ⟨amount, fieldOf_eq found, by rw [amountOf, found, Option.bind_some]⟩

theorem merge_eq (within : g.Within types) (conforms : row.Conforms types) (groups : Groups) :
    g.merge groups row = .ok (groups.add (g.keyOf row) (g.amountOf row)) := by
  obtain ⟨amount, found, same⟩ := exists_amount within conforms
  rw [merge, keyFields_eq within conforms, found, ← same]
  rfl

theorem foldlM_merge (within : g.Within types) {rows : List Row} (conform : ∀ row ∈ rows, row.Conforms types) :
    rows.foldlM g.merge [] = .ok (g.groupsOf rows) := by
  induction rows using List.reverseRecOn with
  | nil => rfl
  | append_singleton rest row ih =>
    rw [List.foldlM_append, ih fun row among => conform row (List.mem_append_left _ among)]
    show g.merge (g.groupsOf rest) row >>= pure = _
    rw [merge_eq within (conform row (by simp)), ← groupsOf_concat]
    rfl

/-- The key of a row and a number are values for the columns of the results. -/
theorem fits_result (within : g.Within types) (conforms : row.Conforms types) {number : Value}
    (fits : number.check .int = .ok ()) : Row.Fits ((g.keyOf row).toList ++ [number]) g.output.types := by
  rw [keyOf]
  cases by_ : g.groupBy with
  | none =>
    rw [within.whole by_]
    exact .cons fits .nil
  | some i =>
    obtain ⟨type, known, output⟩ := within.grouped i by_
    obtain ⟨key, found, first⟩ := conforms.exists_value? known
    rw [output, Option.bind_some, found]
    exact .cons first (.cons fits .nil)

/-- The result of a group is a row of the results, unless it is too large. -/
theorem resultRow_cases (within : g.Within types) (conforms : row.Conforms types) (tally : Tally) :
    (∃ result, g.resultRow (g.keyOf row) tally = .ok result) ∨
      g.resultRow (g.keyOf row) tally = .error (.overflow g.summary) := by
  rw [resultRow, Tally.result]
  cases result : (tally.value? g.summary).bind Value.ofInt? with
  | none => exact .inr rfl
  | some value =>
    obtain ⟨n, -, small⟩ := Option.bind_eq_some_iff.mp result
    have number : value.check .int = .ok () := by
      rw [Value.ofInt?] at small
      split at small
      · cases small
        rfl
      · exact absurd small (by simp)
    exact .inl ⟨_, (Row.build_eq_ok_iff g.output _ _).mpr ⟨fits_result within conforms number, rfl⟩⟩

end Grouping

/-! ### Plans -/

/-- Rows for the columns, unless a sum is too large. -/
def Meant (types : List ColType) : Except Fault (List Row) → Prop
  | .ok rows => ∀ row ∈ rows, row.Conforms types
  | .error fault => ∃ summary, fault = .overflow summary

theorem Meant.bind {types types' : List ColType} {meaning : Except Fault (List Row)}
    {next : List Row → Except Fault (List Row)} (meant : Meant types meaning)
    (later : ∀ rows, (∀ row ∈ rows, row.Conforms types) → Meant types' (next rows)) :
    Meant types' (meaning >>= next) := by
  cases meaning with
  | error fault => exact meant
  | ok rows => exact later rows meant

/-- When a list is not answered, something in it is not. -/
theorem failed_of_mapM {α β : Type} {f : α → Except Fault β} {asked : List α} {fault : Fault}
    (failed : asked.mapM f = .error fault) : ∃ a ∈ asked, f a = .error fault := by
  induction asked with
  | nil => exact absurd failed (by simp [pure, Except.pure])
  | cons a rest ih =>
    rw [List.mapM_cons] at failed
    cases first : f a with
    | error other =>
      rw [first] at failed
      cases failed
      exact ⟨a, List.mem_cons_self, first⟩
    | ok b =>
      cases later : rest.mapM f with
      | error other =>
        rw [first, later] at failed
        cases failed
        obtain ⟨a', among, same⟩ := ih later
        exact ⟨a', List.mem_cons_of_mem _ among, same⟩
      | ok answers =>
        rw [first, later] at failed
        exact absurd failed (by simp [bind, Except.bind, pure, Except.pure])

theorem Grouping.meant_summarised {g : Grouping} {types : List ColType} (within : g.Within types) {rows : List Row}
    (conform : ∀ row ∈ rows, row.Conforms types) : Meant g.output.types (g.summarised rows) := by
  cases done : g.summarised rows with
  | ok results =>
    intro row among
    obtain ⟨⟨key, tally⟩, -, built⟩ := mem_of_mapM done row among
    exact g.conforms_of_resultRow built
  | error fault =>
    obtain ⟨⟨key, tally⟩, among, failed⟩ := failed_of_mapM done
    obtain ⟨key, known, same⟩ := List.mem_map.mp among
    cases same
    rw [List.mem_eraseDups] at known
    obtain ⟨row, here, rfl⟩ := List.mem_map.mp known
    change g.resultRow (g.keyOf row) _ = _ at failed
    rcases Grouping.resultRow_cases within (conform row here) _ with ⟨result, built⟩ | large
    · rw [built] at failed
      exact absurd failed (by simp)
    · rw [large] at failed
      exact ⟨g.summary, (Except.error.inj failed).symm⟩

namespace Plan

/-- The rows that the plan stands for when the tables have these rows. A plan that changes a table stands
for the row with the number of rows that it has dealt with. -/
def meaning (contents : TableId → List Row) : Plan → Except Fault (List Row)
  | .rows _ list => .ok list
  | .scan of => .ok ((contents of.table).map (·.under of.schema))
  | .filter condition child => do return (← child.meaning contents).filter condition.accepts
  | .join condition left right => do
    let ls ← left.meaning contents
    let rs ← right.meaning contents
    return ls.flatMap fun l =>
      (rs.filter (condition.accepts l)).map (Row.joined (left.schema ++ right.schema) l)
  | .aggregate grouping child => do grouping.summarised (← child.meaning contents)
  | .insert _ _ child => do return [← Source.countRow "Inserted" (← child.meaning contents).length]
  | .delete _ child => do return [← Source.countRow "Deleted" (← child.meaning contents).length]

def tables : Plan → List TableId
  | .rows _ _ => []
  | .scan of => [of.table]
  | .filter _ child => child.tables
  | .join _ left right => left.tables ++ right.tables
  | .aggregate _ child => child.tables
  | .insert _ _ child => child.tables
  | .delete _ child => child.tables

/-- The plan changes nothing, its rows are rows of its schema, the tables that it reads are registered and
the fields that it summarises exist. -/
def Reads (c : Catalog) : Plan → Prop
  | .rows schema list => ∀ row ∈ list, row.Conforms schema.types
  | .scan of => c.find? of.table = some of.entry
  | .filter _ child => child.Reads c
  | .join _ left right => left.Reads c ∧ right.Reads c
  | .aggregate grouping child => grouping.Within child.schema.types ∧ child.Reads c
  | .insert _ _ _ => False
  | .delete _ _ => False

end Plan

def Query.reads : Query → Bool
  | .rows _ _ => true
  | .scan _ _ _ => true
  | .filter _ child => child.reads
  | .join _ left right => left.reads && right.reads
  | .aggregate _ _ _ child => child.reads
  | .insert _ _ _ => false
  | .delete _ _ => false

namespace Plan

variable {c : Catalog}

/-- What has become of a query that changes nothing changes nothing. -/
theorem reads_of_ofQuery (query : Query) (reads : query.reads = true) {plan : Plan}
    (made : ofQuery c query = .ok plan) : plan.Reads c := by
  induction query generalizing plan with
  | rows schema lists =>
    obtain ⟨rows, built, same⟩ := Except.bind_eq_ok made
    cases same
    intro row among
    obtain ⟨values, -, done⟩ := mem_of_mapM built row among
    exact Row.conforms_of_build done
  | scan table txn owner =>
    obtain ⟨entry, found, same⟩ := Except.bind_eq_ok made
    cases same
    exact resolveIn_eq_ok found
  | filter condition child ih =>
    obtain ⟨inner, first, same⟩ := Except.bind_eq_ok made
    cases same
    show inner.Reads c
    exact ih reads first
  | join condition left right ih ih' =>
    obtain ⟨l, first, rest⟩ := Except.bind_eq_ok made
    obtain ⟨r, second, same⟩ := Except.bind_eq_ok rest
    cases same
    rw [Query.reads, Bool.and_eq_true] at reads
    exact ⟨ih reads.1 first, ih' reads.2 second⟩
  | aggregate groupBy field summary child ih =>
    obtain ⟨inner, first, rest⟩ := Except.bind_eq_ok made
    obtain ⟨grouping, grouped, same⟩ := Except.bind_eq_ok rest
    cases same
    exact ⟨Grouping.within_of_new grouped, ih reads first⟩
  | insert table txn child => exact absurd reads (by simp [Query.reads])
  | delete txn child => exact absurd reads (by simp [Query.reads])

theorem Reads.meant_meaning {plan : Plan} (reads : plan.Reads c) {contents : TableId → List Row}
    (suit : ∀ table ∈ plan.tables, ∀ row ∈ contents table, row.Suits c table) :
    Meant plan.schema.types (plan.meaning contents) := by
  induction plan with
  | rows schema list => exact reads
  | scan of =>
    intro row among
    obtain ⟨read, stored, rfl⟩ := List.mem_map.mp among
    refine ⟨rfl, ?_⟩
    rw [schema, ScanOf.schema, Schema.types_qualified]
    exact suit of.table (by simp [tables]) read stored of.entry reads
  | filter condition child ih =>
    refine (ih reads suit).bind fun rows conform => ?_
    exact fun row among => conform row (List.mem_of_mem_filter among)
  | join condition left right ih ih' =>
    refine (ih reads.1 fun table among => suit table (List.mem_append_left _ among)).bind fun ls conform => ?_
    refine (ih' reads.2 fun table among => suit table (List.mem_append_right _ among)).bind fun rs conform' => ?_
    intro row among
    obtain ⟨l, here, among⟩ := List.mem_flatMap.mp among
    obtain ⟨r, there, rfl⟩ := List.mem_map.mp among
    exact Row.conforms_joined (conform l here) (conform' r (List.mem_of_mem_filter there)) (Schema.types_append _ _)
  | aggregate grouping child ih =>
    exact (ih reads.2 suit).bind fun rows conform => Grouping.meant_summarised reads.1 conform
  | insert table txn child => exact reads.elim
  | delete txn child => exact reads.elim

end Plan

end RowStore
