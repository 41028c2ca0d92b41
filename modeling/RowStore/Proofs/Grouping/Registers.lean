import Mathlib
import RowStore.Proofs.Plan.Meaning
import RowStore.Proofs.Wide
/-!
# Groups in registers

In memory the groups are three things side by side: the keys in the order in which they were first seen, a map
that tells for a key the number of its register, and the registers themselves, 64 bits for each of the count,
the sum and the two extremes. Here the groups stand in that form, with every addition and every index checked.
As long as fewer than 2³² rows are merged nothing is ever too large or past an end, the three stay in step, and
the results are those of the groups of which all the rest is said.
-/

namespace RowStore

/-- The register of one group. The extremes are the far ends of the range as long as there is no integer. -/
structure Register where
  count : Int64
  sum : Int64
  least : Int64
  greatest : Int64

namespace Register

def fresh : Register := ⟨0, 0, .maxValue, .minValue⟩

/-- The sum of two numbers, nothing if it takes more than 64 bits. -/
def plus? (a b : Int64) : Option Int64 :=
  let sum := a.toInt + b.toInt
  if Int64.minValue.toInt ≤ sum ∧ sum ≤ Int64.maxValue.toInt then some (.ofInt sum) else none

def add (r : Register) (n : Option Int32) : Option Register := do
  let count ← plus? r.count 1
  match n with
  | none => return { r with count }
  | some n =>
    let wide := n.toInt64
    let sum ← plus? r.sum wide
    return { count, sum, least := min r.least wide, greatest := max r.greatest wide }

def value (r : Register) : Summary → Int64
  | .count => r.count
  | .sum => r.sum
  | .avg => r.sum / max r.count 1
  | .min => r.least
  | .max => r.greatest

def result (r : Register) (summary : Summary) : Except Fault Value :=
  match Value.ofInt? (r.value summary).toInt with
  | some value => .ok value
  | none => .error (.overflow summary)

end Register

structure Registers where
  keys : List (Option Value)
  slots : FinMap (Option Value) Nat
  registers : List Register

namespace Registers

def empty : Registers := ⟨[], .empty, []⟩

/-- The number of the key's register, and the registers with a new one at the end if there was none. -/
def slotOf (rs : Registers) (key : Option Value) : Registers × Nat :=
  match rs.slots.get? key with
  | some slot => (rs, slot)
  | none =>
    let slot := rs.registers.length
    ({ keys := rs.keys ++ [key]
       slots := rs.slots.insert key slot
       registers := rs.registers ++ [.fresh] }, slot)

/-- The registers with one more value of the group, nothing if a number is too large or an index past the end. -/
def add (rs : Registers) (key : Option Value) (n : Option Int32) : Option Registers := do
  let (rs, slot) := rs.slotOf key
  let register ← rs.registers[slot]?
  let added ← register.add n
  return { rs with registers := rs.registers.set slot added }

def merge (g : Grouping) (rs : Registers) (row : Row) : ExceptT Fault Option Registers := do
  let key ← MonadExcept.ofExcept (g.groupBy.mapM (Grouping.fieldOf row))
  let value ← MonadExcept.ofExcept (Grouping.fieldOf row g.field)
  liftM (rs.add key value.int?)

def resultRow (g : Grouping) (key : Option Value) (register : Register) : Except Fault Row := do
  let value ← register.result g.summary
  Row.build g.output (key.toList ++ [value])

def results (g : Grouping) (rs : Registers) : Except Fault (List Row) :=
  (rs.keys.zip rs.registers).mapM fun (key, register) => resultRow g key register

end Registers

/-! ### One register -/

namespace Tally

/-- The sum is no larger than that many 32-bit integers can make it. -/
structure Bounded (t : Tally) : Prop where
  least : -(t.count * 2 ^ 31) ≤ t.sum
  greatest : t.sum ≤ t.count * (2 ^ 31 - 1)

variable {t : Tally}

theorem bounded_empty : empty.Bounded := ⟨by decide, by decide⟩

theorem Bounded.bounded_add (bounded : t.Bounded) (n : Option Int32) : (t.add n).Bounded := by
  obtain ⟨least, greatest⟩ := bounded
  cases n with
  | none => constructor <;> simp only [Tally.add] <;> push_cast <;> omega
  | some n =>
    have low := n.le_toInt
    have high := n.toInt_lt
    constructor <;> simp only [Tally.add] <;> push_cast <;> omega

/-- So the average is a 32-bit integer. -/
theorem Bounded.avg_in_int32 (bounded : t.Bounded) :
    -2 ^ 31 ≤ t.sum.tdiv (max t.count 1 : Nat) ∧ t.sum.tdiv (max t.count 1 : Nat) < 2 ^ 31 := by
  have positive : (0 : Int) < (max t.count 1 : Nat) := by omega
  have enough : (t.count : Int) ≤ (max t.count 1 : Nat) := by omega
  obtain ⟨least, greatest⟩ := bounded
  generalize ((max t.count 1 : Nat) : Int) = count at positive enough ⊢
  rcases Int.le_total 0 t.sum with above | below
  · rw [Int.tdiv_eq_ediv_of_nonneg above]
    have := Int.ediv_nonneg above (Int.le_of_lt positive)
    have := Int.ediv_le_of_le_mul positive (show t.sum ≤ (2 ^ 31 - 1) * count by omega)
    omega
  · have above : 0 ≤ -t.sum := by omega
    rw [← Int.neg_neg t.sum, Int.neg_tdiv, Int.tdiv_eq_ediv_of_nonneg above]
    have := Int.ediv_nonneg above (Int.le_of_lt positive)
    have := Int.ediv_le_of_le_mul positive (show -t.sum ≤ 2 ^ 31 * count by omega)
    omega

end Tally

namespace Register

/-- The register holds what the tally says. -/
structure Holds (r : Register) (t : Tally) : Prop where
  count : r.count.toInt = t.count
  sum : r.sum.toInt = t.sum
  least : r.least.toInt = t.least.getD Int64.maxValue.toInt
  greatest : r.greatest.toInt = t.greatest.getD Int64.minValue.toInt

variable {r : Register} {t : Tally}

theorem holds_fresh : fresh.Holds .empty := ⟨rfl, rfl, rfl, rfl⟩

theorem plus?_eq {a b : Int64} (least : -2 ^ 63 ≤ a.toInt + b.toInt) (greatest : a.toInt + b.toInt < 2 ^ 63) :
    ∃ c, plus? a b = some c ∧ c.toInt = a.toInt + b.toInt := Wide.ofInt?_eq least greatest

/-- The far end of the range is no extreme of anything. -/
theorem least_widened (least : Option Int) (n : Int32) :
    min (least.getD Int64.maxValue.toInt) n.toInt = (Tally.widen min n.toInt least).getD Int64.maxValue.toInt := by
  cases least with
  | none =>
    have := n.toInt_lt
    show min (2 ^ 63 - 1) n.toInt = n.toInt
    omega
  | some m => rfl

theorem greatest_widened (greatest : Option Int) (n : Int32) :
    max (greatest.getD Int64.minValue.toInt) n.toInt =
      (Tally.widen max n.toInt greatest).getD Int64.minValue.toInt := by
  cases greatest with
  | none =>
    have := n.le_toInt
    show max (-2 ^ 63) n.toInt = n.toInt
    omega
  | some m => rfl

/-- Another value of fewer than 2³² is taken up without anything being too large. -/
theorem Holds.holds_add (holds : r.Holds t) (bounded : t.Bounded) (few : t.count + 1 < 2 ^ 32) (n : Option Int32) :
    ∃ added, r.add n = some added ∧ added.Holds (t.add n) := by
  have one : (1 : Int64).toInt = 1 := rfl
  obtain ⟨count, counted, count_eq⟩ :
      ∃ count, plus? r.count 1 = some count ∧ count.toInt = r.count.toInt + (1 : Int64).toInt := by
    apply plus?_eq <;> rw [holds.count, one] <;> omega
  rw [holds.count, one] at count_eq
  rw [Register.add, counted, Option.bind_eq_bind, Option.bind_some]
  cases n with
  | none => exact ⟨_, rfl, by rw [count_eq, Tally.add]; push_cast; rfl, holds.sum, holds.least, holds.greatest⟩
  | some n =>
    have wide := n.toInt_toInt64
    have next := bounded.bounded_add (some n)
    obtain ⟨sum, summed, sum_eq⟩ :
        ∃ sum, plus? r.sum n.toInt64 = some sum ∧ sum.toInt = r.sum.toInt + n.toInt64.toInt := by
      have least := next.least
      have greatest := next.greatest
      simp only [Tally.add] at least greatest
      apply plus?_eq <;> rw [holds.sum, wide] <;> omega
    rw [holds.sum, wide] at sum_eq
    refine ⟨⟨count, sum, min r.least n.toInt64, max r.greatest n.toInt64⟩, ?_, ?_, sum_eq, ?_, ?_⟩
    · simp only [summed, Option.bind_some]
      rfl
    · rw [count_eq, Tally.add]
      push_cast
      rfl
    · rw [Wide.toInt_min, holds.least, wide]
      exact least_widened t.least n
    · rw [Wide.toInt_max, holds.greatest, wide]
      exact greatest_widened t.greatest n

/-- The division is exact too. -/
theorem Holds.avg_eq_tdiv (holds : r.Holds t) (bounded : t.Bounded) :
    (r.value .avg).toInt = t.sum.tdiv (max t.count 1 : Nat) := by
  obtain ⟨low, high⟩ := bounded.avg_in_int32
  rw [value, Int64.toInt_div, Wide.toInt_max, holds.sum, holds.count, show (1 : Int64).toInt = 1 from rfl]
  rw [show max (t.count : Int) 1 = (max t.count 1 : Nat) by omega]
  apply Int.bmod_eq_of_le_mul_two <;> omega

theorem Holds.result_eq (holds : r.Holds t) (bounded : t.Bounded) (summary : Summary) :
    r.result summary = t.result summary := by
  rw [Register.result, Tally.result]
  cases summary with
  | count => rw [value, holds.count]; rfl
  | sum => rw [value, holds.sum]; rfl
  | avg => rw [holds.avg_eq_tdiv bounded]; rfl
  | min =>
    rw [value, holds.least, Tally.value?]
    cases t.least with
    | none => rfl
    | some n => rfl
  | max =>
    rw [value, holds.greatest, Tally.value?]
    cases t.greatest with
    | none => rfl
    | some n => rfl

end Register

/-! ### The three in step -/

namespace Groups

variable {groups : Groups} {key : Option Value} {n : Option Int32}

theorem add_of_new (new : key ∉ groups.map (·.1)) : groups.add key n = groups ++ [(key, Tally.empty.add n)] := by
  induction groups with
  | nil => rfl
  | cons first rest ih =>
    rw [List.map_cons, List.mem_cons, not_or] at new
    rw [Groups.add, if_neg (Ne.symm new.1), ih new.2, List.cons_append]

theorem add_of_known (distinct : (groups.map (·.1)).Nodup) {slot : Nat} {tally : Tally}
    (known : groups[slot]? = some (key, tally)) : groups.add key n = groups.set slot (key, tally.add n) := by
  induction groups generalizing slot with
  | nil => simp at known
  | cons first rest ih =>
    obtain ⟨apart, distinct⟩ := List.nodup_cons.mp distinct
    cases slot with
    | zero =>
      cases known
      rw [Groups.add, if_pos rfl, List.set_cons_zero]
    | succ slot =>
      rw [List.getElem?_cons_succ] at known
      have other : first.1 ≠ key := by
        rintro rfl
        exact apart (List.mem_map.mpr ⟨_, List.mem_of_getElem? known, rfl⟩)
      rw [Groups.add, if_neg other, ih distinct known, List.set_cons_succ]

theorem keys_set {slot : Nat} {tally : Tally} (known : groups[slot]? = some (key, tally)) (tally' : Tally) :
    (groups.set slot (key, tally')).map (·.1) = groups.map (·.1) := by
  apply List.ext_getElem?
  intro i
  rw [List.map_set, List.getElem?_set]
  split
  · rename_i same
    subst same
    obtain ⟨inside, -⟩ := List.getElem?_eq_some_iff.mp known
    rw [if_pos (by rwa [List.length_map]), List.getElem?_map, known, Option.map_some]
  · rfl

end Groups

namespace Registers

/-- The registers are the groups: the keys are theirs, the map tells where a key stands among them, and each
register holds the tally of its group. -/
structure InStep (rs : Registers) (groups : Groups) : Prop where
  keys : rs.keys = groups.map (·.1)
  distinct : rs.keys.Nodup
  slots : ∀ key slot, rs.slots.get? key = some slot ↔ rs.keys[slot]? = some key
  registers : List.Forall₂ (fun register group => register.Holds group.2) rs.registers groups

variable {rs : Registers} {groups : Groups}

theorem inStep_empty : empty.InStep [] where
  keys := rfl
  distinct := .nil
  slots := by simp [empty]
  registers := .nil

theorem InStep.length_registers (inStep : rs.InStep groups) : rs.registers.length = rs.keys.length := by
  rw [inStep.registers.length_eq, inStep.keys, List.length_map]

theorem InStep.inStep_push (inStep : rs.InStep groups) {key : Option Value} (new : key ∉ rs.keys) :
    InStep ⟨rs.keys ++ [key], rs.slots.insert key rs.registers.length, rs.registers ++ [.fresh]⟩
      (groups ++ [(key, .empty)]) where
  keys := by rw [inStep.keys, List.map_append, List.map_singleton]
  distinct := by
    rw [List.nodup_append]
    refine ⟨inStep.distinct, by simp, ?_⟩
    rintro other among last here rfl
    rw [List.mem_singleton.mp here] at among
    exact new among
  slots := by
    intro other slot
    rw [FinMap.get?_insert, inStep.length_registers]
    by_cases same : other = key
    · subst same
      rw [if_pos rfl, Option.some_inj]
      constructor
      · rintro rfl
        exact List.getElem?_concat_length
      · intro found
        by_contra apart
        rcases Nat.lt_or_gt_of_ne apart with past | before
        · rw [List.getElem?_eq_none (by rw [List.length_append, List.length_singleton]; omega)] at found
          exact absurd found (by simp)
        · rw [List.getElem?_append_left before] at found
          exact new (List.mem_of_getElem? found)
    · rw [if_neg same, inStep.slots]
      constructor
      · intro found
        obtain ⟨inside, -⟩ := List.getElem?_eq_some_iff.mp found
        rw [List.getElem?_append_left inside, found]
      · intro found
        rcases Nat.lt_or_ge slot rs.keys.length with before | past
        · rwa [List.getElem?_append_left before] at found
        · rw [List.getElem?_append_right past] at found
          have last := List.mem_of_getElem? found
          exact absurd (List.mem_singleton.mp last) same
  registers := List.rel_append inStep.registers (.cons Register.holds_fresh .nil)

/-- However the number of a register was found, the register there is the group's. -/
theorem InStep.inStep_slotOf (inStep : rs.InStep groups) (key : Option Value) (n : Option Int32) :
    ∃ rs' slot groups' tally, rs.slotOf key = (rs', slot) ∧ rs'.InStep groups' ∧
      groups'[slot]? = some (key, tally) ∧ groups.add key n = groups'.set slot (key, tally.add n) ∧
      (tally = .empty ∨ (key, tally) ∈ groups) := by
  rw [Registers.slotOf]
  cases found : rs.slots.get? key with
  | some slot =>
    rw [inStep.slots, inStep.keys, List.getElem?_map, Option.map_eq_some_iff] at found
    obtain ⟨⟨key, tally⟩, known, rfl⟩ := found
    have distinct := inStep.distinct
    rw [inStep.keys] at distinct
    exact ⟨rs, slot, groups, tally, rfl, inStep, known, Groups.add_of_known distinct known,
      .inr (List.mem_of_getElem? known)⟩
  | none =>
    have new : key ∉ rs.keys := by
      intro among
      obtain ⟨slot, inside, there⟩ := List.getElem_of_mem among
      rw [(inStep.slots key slot).mpr (by rw [List.getElem?_eq_getElem inside, there])] at found
      exact absurd found (by simp)
    refine ⟨_, _, _, .empty, rfl, inStep.inStep_push new, ?_, ?_, .inl rfl⟩
    · rw [inStep.registers.length_eq, List.getElem?_concat_length]
    · rw [inStep.keys] at new
      rw [Groups.add_of_new new, inStep.registers.length_eq, List.set_append_right _ _ (Nat.le_refl _), Nat.sub_self,
        List.set_cons_zero]

theorem forall₂_getElem? {α β : Type} {R : α → β → Prop} {as : List α} {bs : List β} (all : List.Forall₂ R as bs)
    {i : Nat} {b : β} (there : bs[i]? = some b) : ∃ a, as[i]? = some a ∧ R a b := by
  induction all generalizing i with
  | nil => simp at there
  | cons first _ ih =>
    cases i with
    | zero =>
      cases there
      exact ⟨_, rfl, first⟩
    | succ i => exact ih there

theorem forall₂_set {α β : Type} {R : α → β → Prop} {as : List α} {bs : List β} (all : List.Forall₂ R as bs)
    (i : Nat) {a : α} {b : β} (both : R a b) : List.Forall₂ R (as.set i a) (bs.set i b) := by
  induction all generalizing i with
  | nil => exact .nil
  | cons first rest ih =>
    cases i with
    | zero => exact .cons both rest
    | succ i => exact .cons first (ih i)

theorem InStep.inStep_add (inStep : rs.InStep groups) (bounded : ∀ group ∈ groups, group.2.Bounded)
    (few : ∀ group ∈ groups, group.2.count + 1 < 2 ^ 32) (key : Option Value) (n : Option Int32) :
    ∃ added, rs.add key n = some added ∧ added.InStep (groups.add key n) := by
  obtain ⟨rs', slot, groups', tally, done, inStep', known, same, before⟩ := inStep.inStep_slotOf key n
  obtain ⟨register, there, holds⟩ := forall₂_getElem? inStep'.registers known
  have room : tally.Bounded ∧ tally.count + 1 < 2 ^ 32 := by
    rcases before with rfl | among
    · exact ⟨Tally.bounded_empty, by decide⟩
    · exact ⟨bounded _ among, few _ among⟩
  obtain ⟨added, taken, holds'⟩ := holds.holds_add room.1 room.2 n
  refine ⟨{ rs' with registers := rs'.registers.set slot added }, ?_, ?_⟩
  · simp only [Registers.add, done, there, taken, Option.bind_eq_bind, Option.bind_some]
    rfl
  · rw [same]
    exact ⟨inStep'.keys.trans (Groups.keys_set known _).symm, inStep'.distinct, inStep'.slots,
      forall₂_set inStep'.registers slot holds'⟩

theorem InStep.results_eq (inStep : rs.InStep groups) (bounded : ∀ group ∈ groups, group.2.Bounded) (g : Grouping) :
    rs.results g = g.results groups := by
  have all := inStep.registers
  rw [Registers.results, inStep.keys, Grouping.results]
  clear inStep
  generalize rs.registers = registers at all
  induction all with
  | nil => rfl
  | @cons register group _ _ first _ ih =>
    have same : resultRow g group.1 register = g.resultRow group.1 group.2 := by
      rw [resultRow, Grouping.resultRow, first.result_eq (bounded group List.mem_cons_self)]
    rw [List.map_cons, List.zip_cons_cons, List.mapM_cons, List.mapM_cons,
      ih fun other among => bounded other (List.mem_cons_of_mem _ among)]
    simp only [same]

end Registers

/-! ### Merging rows -/

namespace Grouping

variable {g : Grouping} {types : List ColType} {rows : List Row}

theorem tallyOf_concat (rows : List Row) (row : Row) :
    g.tallyOf (rows ++ [row]) = (g.tallyOf rows).add (g.amountOf row) := by
  rw [tallyOf, tallyOf, List.foldl_append]
  rfl

theorem count_tallyOf (rows : List Row) : (g.tallyOf rows).count = rows.length := by
  induction rows using List.reverseRecOn with
  | nil => rfl
  | append_singleton rest row ih =>
    rw [tallyOf_concat, List.length_append, List.length_singleton, ← ih]
    cases g.amountOf row <;> rfl

theorem bounded_tallyOf (rows : List Row) : (g.tallyOf rows).Bounded := by
  induction rows using List.reverseRecOn with
  | nil => exact Tally.bounded_empty
  | append_singleton rest row ih =>
    rw [tallyOf_concat]
    exact ih.bounded_add _

/-- What is remembered of a group is the tally of some of the rows. -/
theorem tally_of_mem_groupsOf {group : Option Value × Tally} (among : group ∈ g.groupsOf rows) :
    group.2.Bounded ∧ group.2.count ≤ rows.length := by
  obtain ⟨key, -, rfl⟩ := List.mem_map.mp among
  exact ⟨bounded_tallyOf _, Nat.le_trans (Nat.le_of_eq (count_tallyOf _)) (List.length_filter_le _ _)⟩

theorem mergeRegisters_eq (within : g.Within types) {row : Row} (conforms : row.Conforms types) (rs : Registers) :
    rs.merge g row = liftM (rs.add (g.keyOf row) (g.amountOf row)) := by
  obtain ⟨amount, found, same⟩ := exists_amount within conforms
  rw [Registers.merge, keyFields_eq within conforms, found, ← same]
  rfl

/-- However the rows come, fewer than 2³² of them are merged without a fault, and the registers are the groups. -/
theorem foldlM_mergeRegisters (within : g.Within types) (conform : ∀ row ∈ rows, row.Conforms types)
    (few : rows.length < 2 ^ 32) :
    ∃ rs, rows.foldlM (Registers.merge g) .empty = pure rs ∧ rs.InStep (g.groupsOf rows) := by
  induction rows using List.reverseRecOn with
  | nil => exact ⟨.empty, rfl, Registers.inStep_empty⟩
  | append_singleton rest row ih =>
    rw [List.length_append, List.length_singleton] at few
    obtain ⟨rs, merged, inStep⟩ := ih (fun row among => conform row (List.mem_append_left _ among)) (by omega)
    have bounded : ∀ group ∈ g.groupsOf rest, group.2.Bounded := fun _ among => (tally_of_mem_groupsOf among).1
    have room : ∀ group ∈ g.groupsOf rest, group.2.count + 1 < 2 ^ 32 := by
      intro group among
      have := (tally_of_mem_groupsOf among).2
      omega
    obtain ⟨added, done, inStep'⟩ := inStep.inStep_add bounded room (g.keyOf row) (g.amountOf row)
    refine ⟨added, ?_, ?_⟩
    · rw [List.foldlM_append, merged, pure_bind, List.foldlM_cons,
        mergeRegisters_eq within (conform row (by simp)), done]
      rfl
    · rw [groupsOf_concat]
      exact inStep'

end Grouping

end RowStore
