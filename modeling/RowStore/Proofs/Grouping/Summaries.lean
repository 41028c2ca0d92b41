import Mathlib
import RowStore.Proofs.Grouping.Registers
/-!
# Summaries are what they say

The results of a grouping have one row for each value by which the rows are grouped, in the order in which the
values first appear, and with it the count, the exact sum, the least, the greatest or the average rounded toward
zero of what the rows of that group have in the field. Only a count or a sum can be too large for a 32-bit
integer, and then nothing but that fault comes of it. In another order the same rows come to the same results in
another order.
-/

namespace RowStore

/-! ### What a summary is -/

namespace Summary

/-- The integers among the values. -/
def integers (values : List Value) : List Int := values.filterMap fun value => value.int?.map Int32.toInt

/-- What the summary of the values is, exactly. There is no least and no greatest of nothing. -/
def of? (values : List Value) : Summary → Option Int
  | .count => some values.length
  | .sum => some (integers values).sum
  | .avg => some ((integers values).sum.tdiv values.length)
  | .min => (integers values).min?
  | .max => (integers values).max?

theorem of?_perm {values others : List Value} (same : others.Perm values) (summary : Summary) :
    summary.of? others = summary.of? values := by
  have integers : (integers others).Perm (integers values) := same.filterMap _
  cases summary with
  | count => rw [of?, of?, same.length_eq]
  | sum => rw [of?, of?, integers.sum_eq]
  | avg => rw [of?, of?, integers.sum_eq, same.length_eq]
  | min =>
    refine Option.ext fun n => ?_
    simp only [of?, List.min?_eq_some_iff, integers.mem_iff]
  | max =>
    refine Option.ext fun n => ?_
    simp only [of?, List.max?_eq_some_iff, integers.mem_iff]

end Summary

/-- The number takes no more than 32 bits. -/
def Small (n : Int) : Prop := -2 ^ 31 ≤ n ∧ n < 2 ^ 31

instance : DecidablePred Small := fun _ => inferInstanceAs (Decidable (_ ∧ _))

namespace Grouping

variable (g : Grouping) (rows : List Row)

/-- The keys of the groups in the order in which they are first seen. -/
def keysOf : List (Option Value) := (rows.map g.keyOf).eraseDups

/-- The values that are summarised for the group. -/
def valuesOf (key : Option Value) : List Value :=
  (rows.filter fun row => g.keyOf row = key).filterMap fun row => row.value? g.field

def exactly (key : Option Value) : Int := (g.summary.of? (g.valuesOf rows key)).getD 0

def rowOf (key : Option Value) : Row := ⟨g.output, key.toList ++ [.int (Int32.ofInt (g.exactly rows key))], none⟩

/-- A row for each group, unless the summary of one is too large. -/
def exactResults : Except Fault (List Row) :=
  if ∀ key ∈ g.keysOf rows, Small (g.exactly rows key) then .ok ((g.keysOf rows).map (g.rowOf rows))
  else .error (.overflow g.summary)

/-- The rows are merged one after the other without a fault, both into groups and into registers, and both come
to the results. -/
structure Merges (results : Except Fault (List Row)) : Prop where
  groups : ∃ groups, rows.foldlM g.merge [] = .ok groups ∧ g.results groups = results
  registers : ∃ registers, (rows.foldlM (Registers.merge g) .empty).run = some (.ok registers) ∧
    registers.results g = results

/-- Each key of a row is there once, and one key before another if it is seen before it. -/
structure KeysInOrder : Prop where
  once : (g.keysOf rows).Nodup
  all : ∀ key, key ∈ g.keysOf rows ↔ ∃ row ∈ rows, g.keyOf row = key
  order : (g.keysOf rows).Pairwise fun a b => (rows.map g.keyOf).idxOf a < (rows.map g.keyOf).idxOf b

end Grouping

/-- The same rows, or the same fault. -/
inductive SameButOrder : Except Fault (List Row) → Except Fault (List Row) → Prop where
  | ok {rows others : List Row} (same : rows.Perm others) : SameButOrder (.ok rows) (.ok others)
  | error (fault : Fault) : SameButOrder (.error fault) (.error fault)

/-! ### Keys -/

theorem List.pairwise_idxOf_eraseDups {α : Type} [BEq α] [LawfulBEq α] (list : List α) :
    list.eraseDups.Pairwise fun a b => list.idxOf a < list.idxOf b := by
  induction list using List.reverseRecOn with
  | nil => exact .nil
  | append_singleton rest a ih =>
    have earlier : ∀ b ∈ rest.eraseDups, (rest ++ [a]).idxOf b = rest.idxOf b := by
      intro b among
      exact List.idxOf_append_of_mem (List.mem_eraseDups.mp among)
    have kept : rest.eraseDups.Pairwise fun b c => (rest ++ [a]).idxOf b < (rest ++ [a]).idxOf c := by
      refine ih.imp_of_mem fun here there before => ?_
      rwa [earlier _ here, earlier _ there]
    rw [List.eraseDups_concat]
    split
    · exact kept
    · rename_i fresh
      refine List.pairwise_append.mpr ⟨kept, List.pairwise_singleton .., ?_⟩
      intro b among c last
      rw [List.mem_singleton.mp last, earlier b among, List.idxOf_append_of_notMem fresh]
      exact Nat.lt_add_right _ (List.idxOf_lt_length_of_mem (List.mem_eraseDups.mp among))

namespace Grouping

variable {g : Grouping} {types : List ColType} {rows others : List Row}

theorem keysInOrder_rows (g : Grouping) (rows : List Row) : g.KeysInOrder rows where
  once := List.nodup_eraseDups _
  all key := by rw [keysOf, List.mem_eraseDups, List.mem_map]
  order := List.pairwise_idxOf_eraseDups _

theorem keysOf_perm (same : others.Perm rows) : (g.keysOf others).Perm (g.keysOf rows) := by
  refine (List.perm_ext_iff_of_nodup (List.nodup_eraseDups _) (List.nodup_eraseDups _)).mpr fun key => ?_
  rw [List.mem_eraseDups, List.mem_eraseDups, (same.map g.keyOf).mem_iff]

/-! ### Tallies -/

theorem min?_concat (list : List Int) (n : Int) : (list ++ [n]).min? = Tally.widen min n list.min? := by
  cases list with
  | nil => rfl
  | cons first rest =>
    rw [List.cons_append, List.min?_cons', List.min?_cons', List.foldl_append]
    rfl

theorem max?_concat (list : List Int) (n : Int) : (list ++ [n]).max? = Tally.widen max n list.max? := by
  cases list with
  | nil => rfl
  | cons first rest =>
    rw [List.cons_append, List.max?_cons', List.max?_cons', List.foldl_append]
    rfl

/-- What is remembered of some rows is what there is to know of their values. -/
theorem tallyOf_eq (g : Grouping) (rows : List Row) :
    let integers := Summary.integers (rows.filterMap fun row => row.value? g.field)
    g.tallyOf rows = ⟨rows.length, integers.sum, integers.min?, integers.max?⟩ := by
  induction rows using List.reverseRecOn with
  | nil => rfl
  | append_singleton rest row ih =>
    have split : Summary.integers ((rest ++ [row]).filterMap fun row => row.value? g.field) =
        Summary.integers (rest.filterMap fun row => row.value? g.field) ++
          ((g.amountOf row).map Int32.toInt).toList := by
      simp only [Summary.integers, List.filterMap_append, amountOf]
      cases known : row.value? g.field with
      | none => simp [known]
      | some value => cases amount : value.int? <;> simp [known, amount]
    rw [tallyOf_concat, ih, split, List.length_append]
    cases g.amountOf row with
    | none => simp [Tally.add]
    | some n => simp [Tally.add, min?_concat, max?_concat]

theorem value?_tallyOf (some : rows ≠ []) (present : ∀ row ∈ rows, (row.value? g.field).isSome) (summary : Summary) :
    (g.tallyOf rows).value? summary = summary.of? (rows.filterMap fun row => row.value? g.field) := by
  have length : (rows.filterMap fun row => row.value? g.field).length = rows.length :=
    List.filterMap_length_eq_length.mpr present
  rw [tallyOf_eq]
  cases summary with
  | count => rw [Tally.value?, Summary.of?, length]
  | sum => rfl
  | avg =>
    rw [Tally.value?, Summary.of?, length]
    simp only [Nat.max_eq_left (List.length_pos_iff.mpr some)]
  | min => rfl
  | max => rfl

/-! ### Groups -/

/-- Answers that can only go wrong in one way do so if one of them does. -/
theorem mapM_guarded {α β : Type} {f : α → Except Fault β} {good : α → Prop} [DecidablePred good] {answer : α → β}
    {fault : Fault} {asked : List α}
    (each : ∀ a ∈ asked, f a = if good a then .ok (answer a) else .error fault) :
    asked.mapM f = if ∀ a ∈ asked, good a then .ok (asked.map answer) else .error fault := by
  induction asked with
  | nil => rfl
  | cons a rest ih =>
    rw [List.mapM_cons, each a List.mem_cons_self, ih fun other among => each other (List.mem_cons_of_mem _ among)]
    by_cases here : good a
    · by_cases there : ∀ other ∈ rest, good other
      · rw [if_pos here, if_pos there, if_pos (List.forall_mem_cons.mpr ⟨here, there⟩)]
        rfl
      · rw [if_pos here, if_neg there, if_neg fun all => there (List.forall_mem_cons.mp all).2]
        rfl
    · rw [if_neg here, if_neg fun all => here (List.forall_mem_cons.mp all).1]
      rfl

/-- Only what is counted may be other than integers. -/
theorem of_new {input : Schema} {groupBy : Option Nat} {field : Nat} {summary : Summary}
    (made : new input groupBy field summary = .ok g) :
    (g.groupBy = groupBy ∧ g.field = field ∧ g.summary = summary) ∧
      (summary = .count ∨ input.types[field]? = some .int) := by
  rw [new] at made
  split at made
  · exact absurd made (by simp)
  · rename_i column known
    split at made
    · exact absurd made (by simp)
    · rename_i supported
      have numeric : summary = .count ∨ input.types[field]? = some .int := by
        rw [Schema.types, List.getElem?_map, known, Option.map_some]
        rw [not_and_or, Bool.not_eq_true, not_not] at supported
        rcases supported with number | counted
        · cases type : column.type with
          | int => exact .inr rfl
          | text width =>
            rw [type] at number
            exact absurd number (by simp [ColType.isText])
        · exact .inl counted
      split at made
      · cases made
        exact ⟨⟨rfl, rfl, rfl⟩, numeric⟩
      · split at made
        · exact absurd made (by simp)
        · cases made
          exact ⟨⟨rfl, rfl, rfl⟩, numeric⟩

/-- The rows that can be merged by the grouping. -/
structure Takes (g : Grouping) (types : List ColType) (rows : List Row) : Prop where
  within : g.Within types
  numeric : g.summary = .count ∨ types[g.field]? = some .int
  conform : ∀ row ∈ rows, row.Conforms types

theorem group_ne_nil {key : Option Value} (known : key ∈ g.keysOf rows) :
    (rows.filter fun row => g.keyOf row = key) ≠ [] := by
  obtain ⟨row, among, same⟩ := ((g.keysInOrder_rows rows).all key).mp known
  exact List.ne_nil_of_mem (List.mem_filter.mpr ⟨among, decide_eq_true same⟩)

namespace Takes

variable {key : Option Value} (takes : g.Takes types rows)
include takes

theorem value?_isSome : ∀ row ∈ rows, (row.value? g.field).isSome := by
  intro row among
  obtain ⟨value, found, -⟩ := (takes.conform row among).exists_value? (List.getElem?_eq_getElem takes.within.field)
  rw [found]
  rfl

theorem takes_of_perm (same : others.Perm rows) : g.Takes types others :=
  ⟨takes.within, takes.numeric, fun row among => takes.conform row (same.mem_iff.mp among)⟩

theorem takes_group (key : Option Value) : g.Takes types (rows.filter fun row => g.keyOf row = key) :=
  ⟨takes.within, takes.numeric, fun row among => takes.conform row (List.mem_of_mem_filter among)⟩

theorem value?_tally (known : key ∈ g.keysOf rows) :
    (g.tallyOf (rows.filter fun row => g.keyOf row = key)).value? g.summary = g.summary.of? (g.valuesOf rows key) :=
  value?_tallyOf (group_ne_nil known) (takes.takes_group key).value?_isSome g.summary

/-- Where more is asked than their number, the values are integers. -/
theorem integers_ne_nil (other : g.summary ≠ .count) (some : rows ≠ []) :
    Summary.integers (rows.filterMap fun row => row.value? g.field) ≠ [] := by
  obtain ⟨row, among⟩ := List.exists_mem_of_ne_nil rows some
  obtain ⟨value, found, fits⟩ := (takes.conform row among).exists_value? (takes.numeric.resolve_left other)
  cases value with
  | text s => exact absurd fits (by simp [Value.check])
  | int n =>
    apply List.ne_nil_of_mem
    exact List.mem_filterMap.mpr ⟨.int n, List.mem_filterMap.mpr ⟨row, among, found⟩, rfl⟩

theorem of?_eq (known : key ∈ g.keysOf rows) :
    g.summary.of? (g.valuesOf rows key) = some (g.exactly rows key) := by
  have some : (g.summary.of? (g.valuesOf rows key)).isSome := by
    have integers := fun other => (takes.takes_group key).integers_ne_nil other (group_ne_nil known)
    change g.summary ≠ .count → Summary.integers (g.valuesOf rows key) ≠ [] at integers
    cases chosen : g.summary with
    | count => rfl
    | sum => rfl
    | avg => rfl
    | min =>
      rw [chosen] at integers
      rw [Summary.of?, Option.isSome_iff_ne_none, ne_eq, List.min?_eq_none_iff]
      exact integers (by decide)
    | max =>
      rw [chosen] at integers
      rw [Summary.of?, Option.isSome_iff_ne_none, ne_eq, List.max?_eq_none_iff]
      exact integers (by decide)
  obtain ⟨n, summary⟩ := Option.isSome_iff_exists.mp some
  rw [exactly, summary, Option.getD_some]

theorem resultRow_eq (known : key ∈ g.keysOf rows) :
    g.resultRow key (g.tallyOf (rows.filter fun row => g.keyOf row = key)) =
      if Small (g.exactly rows key) then .ok (g.rowOf rows key) else .error (.overflow g.summary) := by
  obtain ⟨row, among, rfl⟩ := ((g.keysInOrder_rows rows).all key).mp known
  rw [resultRow, Tally.result, takes.value?_tally known, takes.of?_eq known, Option.bind_some, Value.ofInt?]
  by_cases small : Small (g.exactly rows (g.keyOf row))
  · rw [if_pos small, if_pos ⟨small.1, Int.lt_add_one_iff.mp small.2⟩]
    exact (Row.build_eq_ok_iff g.output _ _).mpr ⟨fits_result takes.within (takes.conform row among) rfl, rfl⟩
  · rw [if_neg small, if_neg fun within => small ⟨within.1, Int.lt_add_one_iff.mpr within.2⟩]
    rfl

/-- An extreme is one of the values, and the average is between the extremes. -/
theorem small_exactly (known : key ∈ g.keysOf rows) (chosen : g.summary = .min ∨ g.summary = .max ∨ g.summary = .avg) :
    Small (g.exactly rows key) := by
  have summary := takes.of?_eq known
  have one : ∀ n ∈ Summary.integers (g.valuesOf rows key), Small n := by
    intro n among
    obtain ⟨value, -, number⟩ := List.mem_filterMap.mp among
    obtain ⟨m, -, rfl⟩ := Option.map_eq_some_iff.mp number
    exact ⟨m.le_toInt, m.toInt_lt⟩
  rcases chosen with least | greatest | average
  · rw [least] at summary
    exact one _ (List.min?_eq_some_iff.mp summary).1
  · rw [greatest] at summary
    exact one _ (List.max?_eq_some_iff.mp summary).1
  · rw [← takes.value?_tally known, average] at summary
    have := (bounded_tallyOf (g := g) (rows.filter fun row => g.keyOf row = key)).avg_in_int32
    rwa [Option.some_inj.mp summary] at this

theorem results_groupsOf : g.results (g.groupsOf rows) = g.exactResults rows := by
  rw [results, groupsOf, List.mapM_map, exactResults]
  exact mapM_guarded fun key known => takes.resultRow_eq known

/-- However the rows are merged, their results are what they should be. -/
theorem merges_exactResults (few : rows.length < 2 ^ 32) : g.Merges rows (g.exactResults rows) where
  groups := ⟨g.groupsOf rows, foldlM_merge takes.within takes.conform, takes.results_groupsOf⟩
  registers := by
    obtain ⟨registers, merged, inStep⟩ := foldlM_mergeRegisters takes.within takes.conform few
    refine ⟨registers, congrArg ExceptT.run merged, ?_⟩
    rw [inStep.results_eq fun _ among => (tally_of_mem_groupsOf among).1, takes.results_groupsOf]

end Takes

/-- The order of the rows is the order of the groups and nothing else. -/
theorem exactResults_perm (same : others.Perm rows) : SameButOrder (g.exactResults others) (g.exactResults rows) := by
  have exactly_eq : ∀ key, g.exactly others key = g.exactly rows key := by
    intro key
    rw [exactly, exactly, valuesOf, valuesOf, Summary.of?_perm ((same.filter _).filterMap _)]
  have keys := g.keysOf_perm same
  have rows_eq : g.rowOf others = g.rowOf rows := by
    funext key
    rw [rowOf, rowOf, exactly_eq]
  simp only [exactResults, exactly_eq, rows_eq, keys.mem_iff]
  split
  · exact .ok (keys.map _)
  · exact .error _

/-- Whatever is grouped and summarised, the rows merged one after the other come to one row for each group, the
groups in the order in which they are first seen, with the exact summary of the group, or to an overflow if one of
these takes more than 32 bits. An extreme and an average never do. Another order of the rows changes the order of
the results and nothing else. -/
theorem results_are_exact {input : Schema} {groupBy : Option Nat} {field : Nat} {summary : Summary}
    (made : new input groupBy field summary = .ok g) (conform : ∀ row ∈ rows, row.Conforms input.types)
    (few : rows.length < 2 ^ 32) :
    (g.groupBy = groupBy ∧ g.field = field ∧ g.summary = summary) ∧
    g.Merges rows (g.exactResults rows) ∧ g.KeysInOrder rows ∧
    (∀ key ∈ g.keysOf rows, summary.of? (g.valuesOf rows key) = some (g.exactly rows key)) ∧
    (summary = .min ∨ summary = .max ∨ summary = .avg → ∃ results, g.exactResults rows = .ok results) ∧
    ∀ others, others.Perm rows →
      g.Merges others (g.exactResults others) ∧ SameButOrder (g.exactResults others) (g.exactResults rows) := by
  obtain ⟨⟨rfl, rfl, rfl⟩, numeric⟩ := of_new made
  have takes : g.Takes input.types rows := ⟨within_of_new made, numeric, conform⟩
  refine ⟨⟨rfl, rfl, rfl⟩, takes.merges_exactResults few, g.keysInOrder_rows rows, fun _ =>
    takes.of?_eq, fun chosen => ?_,
    fun others same => ⟨?_, ?_⟩⟩
  · exact ⟨_, if_pos fun key known => takes.small_exactly known chosen⟩
  · exact (takes.takes_of_perm same).merges_exactResults (same.length_eq ▸ few)
  · exact exactResults_perm same

def scores : Schema := ⟨[⟨some "name", .text 8⟩, ⟨some "score", .int⟩]⟩

def score (name : String) (n : Int32) : Row := ⟨scores, [.text name, .int n], none⟩

def averages : Grouping := ⟨some 0, 1, .avg, ⟨[⟨some "name", .text 8⟩, ⟨some "avg (score)", .int⟩]⟩⟩

/-- The names come in the order in which they are seen, and an average below zero is rounded up. -/
theorem averages_of_scores :
    averages.Merges [score "B" 5, score "A" 10, score "A" 21, score "B" (-8)]
      (.ok [⟨averages.output, [.text "B", .int (-1)], none⟩, ⟨averages.output, [.text "A", .int 15], none⟩]) := by
  have made : new scores (some 0) 1 .avg = .ok averages := rfl
  have conform : ∀ row ∈ [score "B" 5, score "A" 10, score "A" 21, score "B" (-8)], row.Conforms scores.types := by
    intro row among
    simp only [List.mem_cons, List.not_mem_nil, or_false] at among
    rcases among with rfl | rfl | rfl | rfl <;> exact ⟨rfl, .cons rfl (.cons rfl .nil)⟩
  exact (results_are_exact made conform (by decide)).2.1

end Grouping

end RowStore
