import RowStore.Proofs.Plan.Sources
import RowStore.Proofs.Plan.Turns
/-!
# Every source comes to an end

There is a measure for every source, built on those of the sources it draws from, so a plan whose
tables are registered gives only so many rows while files keep to a bound.
-/

namespace RowStore

open Engine

/-! ### What takes no memory -/

/-- What is computed beside the engine does not fail for lack of room in memory. -/
def Memoryless {α : Type} (x : Except Fault α) : Prop := x ≠ .error .poolFull

namespace Memoryless

variable {α β : Type}

@[simp] theorem memoryless_ok (a : α) : Memoryless (.ok a) := by simp [Memoryless]

@[simp] theorem pure (a : α) : Memoryless (Pure.pure a) := memoryless_ok a

theorem bind {x : Except Fault α} {next : α → Except Fault β} (first : Memoryless x)
    (later : ∀ a, Memoryless (next a)) : Memoryless (x >>= next) := by
  cases x with
  | error fault => exact fun same => first (congrArg Except.error (Except.error.inj same))
  | ok a => exact later a

theorem memoryless_mapM {f : α → Except Fault β} (each : ∀ a, Memoryless (f a)) (list : List α) :
    Memoryless (list.mapM f) := by
  induction list with
  | nil => exact .pure []
  | cons a rest ih =>
    rw [List.mapM_cons]
    exact (each a).bind fun b => ih.bind fun rest => .pure (b :: rest)

end Memoryless

theorem Value.check_memoryless (value : Value) (type : ColType) : Memoryless (value.check type) := by
  cases value <;> cases type <;> simp only [check, Memoryless]
  case text.text => split <;> simp
  all_goals simp

namespace Row

theorem checkAll_memoryless (values : List Value) (types : List ColType) : Memoryless (checkAll values types) := by
  induction values generalizing types with
  | nil => simp [checkAll]
  | cons value values ih =>
    cases types with
    | nil => simp [checkAll]
    | cons type types => exact (value.check_memoryless type).bind fun _ => ih types

theorem build_memoryless (schema : Schema) (values : List Value) : Memoryless (build schema values) := by
  rw [build]
  split
  · simp [Memoryless]
  · exact (checkAll_memoryless values schema.types).bind fun _ => .pure _

end Row

namespace Grouping

theorem fieldOf_memoryless (row : Row) (index : Nat) : Memoryless (fieldOf row index) := by
  rw [fieldOf]
  split <;> simp [Memoryless]

theorem length_add_le (groups : Groups) (key : Option Value) (n : Option Int32) :
    (groups.add key n).length ≤ groups.length + 1 := by
  induction groups with
  | nil => simp [Groups.add]
  | cons group rest ih =>
    rw [Groups.add]
    split
    · simp
    · simpa using ih

/-- Every row adds one group at most. -/
theorem length_of_merge (grouping : Grouping) {groups groups' : Groups} {row : Row}
    (merged : grouping.merge groups row = .ok groups') : groups'.length ≤ groups.length + 1 := by
  obtain ⟨key, -, merged⟩ := Except.bind_eq_ok merged
  obtain ⟨value, -, same⟩ := Except.bind_eq_ok merged
  cases same
  exact length_add_le groups key value.int?

theorem merge_memoryless (grouping : Grouping) (groups : Groups) (row : Row) :
    Memoryless (grouping.merge groups row) := by
  have key : Memoryless (grouping.groupBy.mapM (fieldOf row)) := by
    cases grouping.groupBy with
    | none => exact .pure none
    | some g => exact (fieldOf_memoryless row g).bind fun key => .pure (some key)
  exact key.bind fun key => (fieldOf_memoryless row grouping.field).bind fun value => .pure _

theorem resultRow_memoryless (grouping : Grouping) (key : Option Value) (tally : Tally) :
    Memoryless (grouping.resultRow key tally) := by
  have result : Memoryless (tally.result grouping.summary) := by
    rw [Tally.result]
    split <;> simp [Memoryless]
  exact result.bind fun value => Row.build_memoryless _ _

theorem results_memoryless (grouping : Grouping) (groups : Groups) : Memoryless (grouping.results groups) := by
  apply Memoryless.memoryless_mapM
  intro group
  exact grouping.resultRow_memoryless group.1 group.2

theorem length_of_mapM {α β : Type} {f : α → Except Fault β} {asked : List α} {answers : List β}
    (done : asked.mapM f = .ok answers) : answers.length = asked.length := by
  induction asked generalizing answers with
  | nil =>
    cases done
    rfl
  | cons a rest ih =>
    rw [List.mapM_cons] at done
    obtain ⟨head, -, done⟩ := Except.bind_eq_ok done
    obtain ⟨tail, later, same⟩ := Except.bind_eq_ok done
    cases same
    simp [ih later]

end Grouping

theorem Source.countRow_memoryless (name : String) (count : Nat) : Memoryless (countRow name count) := by
  rw [countRow]
  split
  · exact Row.build_memoryless _ _
  · simp [Memoryless]

theorem Engine.Ready.ofExcept_honest {α : Type} {c : Catalog} {settings : Settings} {e : Engine}
    (ready : Ready c settings e)
    {x : Except Fault α} (memoryless : Memoryless x) : Ensures (ofExcept x) e (Honest c settings e fun a => x = .ok a) := by
  cases x with
  | error fault => exact ready.failed_of_ne_full fun same => memoryless (congrArg Except.error same)
  | ok a => exact ⟨ready.onward_self, rfl⟩

/-! ### Sources that draw from no other -/

namespace Source

variable {c : Catalog} {settings : Settings} {types : List ColType}

def Gauge.ofRows (types : List ColType) (rows : List Row) : (ofRows rows).Gauge where
  good _ (rest : List Row) := (∀ row ∈ rest, row.Conforms types) ∧ rest.length ≤ rows.length
  left _ (rest : List Row) := rest.length
  most _ := rows.length

theorem ofRows_lasts (rows : List Row) (conform : ∀ row ∈ rows, row.Conforms types) :
    (ofRows rows).Lasts c settings types (.ofRows types rows) where
  wider _ holds := holds
  grows _ := Nat.le_refl _
  initial _ := ⟨conform, Nat.le_refl _⟩
  finish _ _ holds := holds
  replay again same := absurd same (by simp [ofRows])
  bounded holds := holds.2
  limit _ := Nat.le_refl _
  start _ under := ⟨⟨conform, Nat.le_refl _⟩, under, trivial⟩
  fetch {bound s e} holds under := by
    cases s with
    | nil => exact ⟨holds, under, fun _ same => absurd same (by simp), Nat.le_refl _⟩
    | cons row rest =>
      obtain ⟨conform', few⟩ := holds
      rw [List.length_cons] at few
      refine ⟨⟨?_, Nat.le_of_lt few⟩, under, ?_, Nat.le_refl _⟩
      · intro other later
        exact conform' other (List.mem_cons_of_mem _ later)
      · intro given same
        cases same
        exact conform' row List.mem_cons_self

/-- The scan that has been begun, if there is one, holds no more rows than a page has slots. -/
def Gauge.ofTable (c : Catalog) (settings : Settings) (of : ScanOf) : (ofTable of).Gauge where
  good _ (state : Option FileScan) := ∀ scan, state = some scan → scan.Brief settings of (Row.Suits c of.table)
  left bound (state : Option FileScan) := state.elim 0 (FileScan.left settings (bound of.table))
  most bound := (bound of.table + 1) * slotLimit settings

theorem ofTable_lasts (of : ScanOf) (found : c.find? of.table = some of.entry) :
    (ofTable of).Lasts c settings of.schema.types (.ofTable c settings of) where
  wider _ brief := brief
  grows wider := Nat.mul_le_mul_right _ (Nat.succ_le_succ (wider of.table))
  initial _ _ same := absurd same (by simp [ofTable])
  finish _ _ _ _ same := absurd same (by simp [ofTable])
  replay again same := absurd same (by simp [ofTable])
  bounded {bound s} brief := by
    cases s with
    | none => exact Nat.zero_le _
    | some scan =>
      have few := (brief scan rfl).pending
      have ahead : (bound of.table - scan.nextPage) * slotLimit settings ≤ bound of.table * slotLimit settings :=
        Nat.mul_le_mul_right _ (Nat.sub_le _ _)
      simp only [Gauge.ofTable, Option.elim, FileScan.left, Nat.succ_mul]
      omega
  limit {bound e} under := by
    have pages := under.room of.table
    rw [room, ← under.ready.pagesOf_eq_pagesIn found] at pages
    simp only [Gauge.ofTable, ofTable, slotLimit, ← under.ready.settings]
    apply Nat.mul_le_mul_right
    omega
  start {bound s e} _ under := by
    refine ⟨?_, under, trivial⟩
    intro scan same
    cases same
    exact ⟨FileScan.sound_start of.table _ of.entry.file of.txn, rfl, Nat.zero_le _⟩
  fetch {bound s e} brief under := by
    cases s with
    | none => exact ⟨brief, under, fun _ same => absurd same (by simp), Nat.le_refl _⟩
    | some scan =>
      have drawn : Ensures (Step.within (fun _ => scan) (fun _ scan => some scan) FileScan.next) (some scan, e)
          (Fair c settings bound ((Gauge.ofTable c settings of).good bound) fun answer s' =>
            (∀ row, answer = some row → row.Suits c of.table) ∧
              (Gauge.ofTable c settings of).left bound s' + taken answer ≤
                scan.left settings (bound of.table)) := by
        apply (FileScan.next_fair (FileScan.gives_suiting c of.table) found scan (brief scan rfl) under).fair_within
        · intro scan brief' other same
          cases same
          exact brief'
        · intro answer scan given
          exact given
      refine drawn.fair_bind ?_
      intro answer s' e' brief' under' given
      obtain ⟨suits, less⟩ := given
      refine ⟨brief', under', ?_, ?_⟩
      · intro row same
        obtain ⟨read, given, rfl⟩ := Option.map_eq_some_iff.mp same
        refine ⟨rfl, ?_⟩
        rw [ScanOf.schema, Schema.types_qualified]
        exact suits read given of.entry found
      · cases answer <;> exact less

/-! ### Filtering -/

def Gauge.filter {child : Source} (types : List ColType) (gauge : child.Gauge) (condition : Condition) :
    (filter condition child).Gauge where
  good bound := Cursor.Fit types gauge True bound
  left bound := Cursor.left gauge bound
  most := gauge.most

theorem filter_lasts {child : Source} {gauge : child.Gauge} (lasts : child.Lasts c settings types gauge)
    (condition : Condition) : (filter condition child).Lasts c settings types (gauge.filter types condition) where
  wider wider fit := Cursor.Fit.fit_of_le lasts fit wider
  grows := lasts.grows
  initial bound := Cursor.fit_new lasts bound
  finish _ _ fit := Cursor.Fit.fit_close lasts fit
  replay again same := absurd same (by simp [filter])
  bounded fit := Cursor.Fit.left_le lasts fit
  limit := lasts.limit
  start fit under := (Cursor.start_fair lasts fit under).fair_mono fun _ _ _ => trivial
  fetch fit under := by
    refine Cursor.turns_fair lasts fit under ?_
    intro turns enough
    exact Cursor.find_fair lasts fit under condition.accepts turns enough

/-! ### Joining -/

namespace Joining

variable {left right : Source} {types types' : List ColType} {gauge : left.Gauge} {gauge' : right.Gauge}
  {bound : TableId → Nat} {e : Engine} {α : Type}

structure Fit (types types' : List ColType) (gauge : left.Gauge) (gauge' : right.Gauge) (bound : TableId → Nat)
    (j : Joining left right) : Prop where
  left : j.left.Fit types gauge True bound
  right : j.right.Fit types' gauge' True bound
  outer : Row.MayConform types j.outer

/-- How many pairs there can still be: those with the left row at hand, and for every left row to come
as many as the right side can have rows. -/
def pairs (gauge : left.Gauge) (gauge' : right.Gauge) (bound : TableId → Nat) (j : Joining left right) : Nat :=
  (if j.outer.isSome then j.right.left gauge' bound else 0) + j.left.left gauge bound * gauge'.most bound

/-- How many left rows are still to be matched. -/
def lefts (gauge : left.Gauge) (bound : TableId → Nat) (j : Joining left right) : Nat :=
  taken j.outer + j.left.left gauge bound

variable {j : Joining left right} (fit : j.Fit types types' gauge gauge' bound)

include fit

theorem onLeft_fair {act : Step (Cursor left) α} {yields : α → Cursor left → Prop}
    (fair : Ensures act (j.left, e) (Fair c settings bound (Cursor.Fit types gauge True bound) yields)) :
    Ensures (onLeft act) (j, e) (Fair c settings bound (Fit types types' gauge gauge' bound) fun a j' =>
      (j'.right = j.right ∧ j'.outer = j.outer) ∧ yields a j'.left) := by
  apply fair.fair_within
  · intro left holds
    exact ⟨holds, fit.right, fit.outer⟩
  · intro a left given
    exact ⟨⟨rfl, rfl⟩, given⟩

theorem onRight_fair {act : Step (Cursor right) α} {yields : α → Cursor right → Prop}
    (fair : Ensures act (j.right, e) (Fair c settings bound (Cursor.Fit types' gauge' True bound) yields)) :
    Ensures (onRight act) (j, e) (Fair c settings bound (Fit types types' gauge gauge' bound) fun a j' =>
      (j'.left = j.left ∧ j'.outer = j.outer) ∧ yields a j'.right) := by
  apply fair.fair_within
  · intro right holds
    exact ⟨fit.left, holds, fit.outer⟩
  · intro a right given
    exact ⟨⟨rfl, rfl⟩, given⟩

variable (lasts : left.Lasts c settings types gauge) (lasts' : right.Lasts c settings types' gauge')
  (under : Under c settings bound e)

include lasts lasts' under

theorem current_fair :
    Ensures current (j, e) (Fair c settings bound (Fit types types' gauge gauge' bound) fun answer j' =>
      Row.MayConform types answer ∧ j'.outer = answer ∧ j'.pairs gauge gauge' bound ≤ j.pairs gauge gauge' bound ∧
        j'.lefts gauge bound ≤ j.lefts gauge bound) := by
  refine .here_bind ?_
  cases here : j.outer with
  | some row =>
    refine ⟨fit, under, ?_, here, Nat.le_refl _, Nat.le_refl _⟩
    rw [← here]
    exact fit.outer
  | none =>
    refine (onLeft_fair fit (Cursor.pull_fair lasts fit.left under)).fair_bind ?_
    intro answer j' e' fit' under' given
    obtain ⟨⟨right, -⟩, conforms, less⟩ := given
    refine ⟨⟨fit'.left, fit'.right, conforms⟩, under', conforms, rfl, ?_, ?_⟩
    · have most := Cursor.Fit.left_le lasts' fit'.right
      have spent := Nat.mul_le_mul_right (gauge'.most bound) less
      cases answer with
      | none => simpa [pairs, here] using spent
      | some row =>
        rw [taken_some, Nat.succ_mul] at spent
        simp only [pairs, here, Option.isSome_some, Option.isSome_none, if_true, Bool.false_eq_true, if_false]
        omega
    · simp only [lefts, here, taken_none]
      omega

/-- Every turn but the last deals with one left row. -/
theorem nextPair_fair (accepts : Row → Row → Bool) (turns : Nat) (enough : j.lefts gauge bound < turns) :
    Ensures (nextPair accepts turns) (j, e) (Fair c settings bound (Fit types types' gauge gauge' bound) fun pair j' =>
      (∀ l r, pair = some (l, r) → l.Conforms types ∧ r.Conforms types') ∧
        j'.pairs gauge gauge' bound + taken pair ≤ j.pairs gauge gauge' bound) := by
  induction turns generalizing j e with
  | zero => exact absurd enough (Nat.not_lt_zero _)
  | succ turns ih =>
    refine (current_fair fit lasts lasts' under).fair_bind ?_
    intro answer j₁ e₁ fit₁ under₁ given
    obtain ⟨conforms, here, pairs₁, lefts₁⟩ := given
    cases answer with
    | none => exact ⟨fit₁, under₁, fun _ _ same => absurd same (by simp), pairs₁⟩
    | some l =>
      have found := Cursor.turns_fair lasts' fit₁.right under₁ fun turns enough =>
        Cursor.find_fair lasts' fit₁.right under₁ (accepts l) turns enough
      refine (onRight_fair fit₁ found).fair_bind ?_
      intro match? j₂ e₂ fit₂ under₂ given
      obtain ⟨⟨sameLeft, sameOuter⟩, conforms', less⟩ := given
      rw [here] at sameOuter
      have pairs₂ : j₂.pairs gauge gauge' bound + taken match? ≤ j₁.pairs gauge gauge' bound := by
        simp only [pairs, here, sameOuter, sameLeft, Option.isSome_some, if_true]
        omega
      cases match? with
      | some r =>
        refine ⟨fit₂, under₂, ?_, Nat.le_trans pairs₂ pairs₁⟩
        intro l' r' same
        cases same
        exact ⟨conforms l rfl, conforms' r rfl⟩
      | none =>
        have fit₃ : Fit types types' gauge gauge' bound { j₂ with outer := none } :=
          ⟨fit₂.left, fit₂.right, fun _ same => absurd same (by simp)⟩
        refine .update_bind ((onRight_fair fit₃ (Cursor.rewind_fair lasts' fit₂.right under₂)).fair_bind ?_)
        intro _ j₄ e₄ fit₄ under₄ given
        obtain ⟨⟨sameLeft', sameOuter'⟩, -⟩ := given
        have fewer : j₄.lefts gauge bound < turns := by
          simp only [lefts, here, taken_some] at lefts₁ enough
          simp only [lefts, sameOuter', sameLeft', sameLeft, taken_none]
          omega
        have pairs₄ : j₄.pairs gauge gauge' bound ≤ j₂.pairs gauge gauge' bound := by
          simp only [pairs, sameOuter', sameLeft', Option.isSome_none, Bool.false_eq_true, if_false, Nat.zero_add]
          exact Nat.le_add_left _ _
        apply (ih fit₄ under₄ fewer).fair_mono
        intro pair j₅ last
        exact ⟨last.1, by omega⟩

end Joining

def Gauge.join {left right : Source} (types types' : List ColType) (gauge : left.Gauge) (gauge' : right.Gauge)
    (condition : JoinCondition) (schema : Schema) : (join condition schema left right).Gauge where
  good := Joining.Fit types types' gauge gauge'
  left := Joining.pairs gauge gauge'
  most bound := (gauge.most bound + 1) * gauge'.most bound

theorem join_lasts {left right : Source} {schema schema' : Schema} {gauge : left.Gauge} {gauge' : right.Gauge}
    (lasts : left.Lasts c settings schema.types gauge) (lasts' : right.Lasts c settings schema'.types gauge')
    (condition : JoinCondition) :
    (join condition (schema ++ schema') left right).Lasts c settings (schema ++ schema').types
      (.join schema.types schema'.types gauge gauge' condition (schema ++ schema')) where
  wider wider fit := ⟨fit.left.fit_of_le lasts wider, fit.right.fit_of_le lasts' wider, fit.outer⟩
  grows wider := Nat.mul_le_mul (Nat.succ_le_succ (lasts.grows wider)) (lasts'.grows wider)
  initial bound := ⟨Cursor.fit_new lasts bound, Cursor.fit_new lasts' bound, fun _ same => absurd same (by simp [join])⟩
  finish _ _ fit := ⟨fit.left.fit_close lasts, fit.right.fit_close lasts', fun _ same => absurd same (by simp [join])⟩
  replay again same := absurd same (by simp [join])
  bounded {bound j} fit := by
    have most := Nat.mul_le_mul_right (gauge'.most bound) (fit.left.left_le lasts)
    have most' := fit.right.left_le lasts'
    simp only [Gauge.join, Joining.pairs, Nat.succ_mul]
    split <;> omega
  limit under := Nat.mul_le_mul (Nat.succ_le_succ (lasts.limit under)) (lasts'.limit under)
  start {bound j e} fit under := by
    refine (Joining.onLeft_fair fit (Cursor.start_fair lasts fit.left under)).fair_bind ?_
    intro _ j₁ e₁ fit₁ under₁ _
    refine (Joining.onRight_fair fit₁ (Cursor.start_fair lasts' fit₁.right under₁)).fair_bind ?_
    intro _ j₂ e₂ fit₂ under₂ _
    exact ⟨⟨fit₂.left, fit₂.right, fun _ same => absurd same (by simp)⟩, under₂, trivial⟩
  fetch {bound j e} fit under := by
    have enough : Joining.lefts gauge bound j < left.limit e + 2 := by
      have most := fit.left.left_le lasts
      have limit := lasts.limit under
      have one := Cursor.taken_le_one j.outer
      simp only [Joining.lefts]
      omega
    refine .theEngine_bind
      ((Joining.nextPair_fair fit lasts lasts' under condition.accepts (left.limit e + 2) enough).fair_bind ?_)
    intro pair j₁ e₁ fit₁ under₁ given
    obtain ⟨conform, less⟩ := given
    refine ⟨fit₁, under₁, ?_, ?_⟩
    · intro row same
      obtain ⟨⟨l, r⟩, here, rfl⟩ := Option.map_eq_some_iff.mp same
      obtain ⟨first, second⟩ := conform l r here
      exact Row.conforms_joined first second (Schema.types_append schema schema')
    · cases pair <;> exact less

/-! ### Aggregates -/

namespace Aggregating

variable {child : Source} {gauge : child.Gauge} {bound : TableId → Nat}

/-- There are no more groups than rows. -/
structure Fit (types : List ColType) (gauge : child.Gauge) (output : List ColType) (bound : TableId → Nat)
    (a : Aggregating child) : Prop where
  child : a.child.Fit types gauge True bound
  results : (∀ row ∈ a.results, row.Conforms output) ∧ a.results.length ≤ gauge.most bound
  rest : (∀ row ∈ a.rest, row.Conforms output) ∧ a.rest.length ≤ gauge.most bound

theorem summarise_fair (lasts : child.Lasts c settings types gauge) {cur : Cursor child} {e : Engine}
    (fit : cur.Fit types gauge True bound) (under : Under c settings bound e) (grouping : Grouping) :
    Ensures (summarise grouping) (cur, e) (Fair c settings bound (Cursor.Fit types gauge True bound) fun rows _ =>
      (∀ row ∈ rows, row.Conforms grouping.output.types) ∧ rows.length ≤ gauge.most bound) := by
  refine (Cursor.start_fair lasts fit under).fair_bind ?_
  intro _ cur₁ e₁ fit₁ under₁ _
  apply Cursor.turns_fair lasts fit₁ under₁
  intro turns enough
  have drained : Ensures (Cursor.drain (fun groups row => Engine.ofExcept (grouping.merge groups row)) turns []) (cur₁, e₁)
      (Fair c settings bound (Cursor.Fit types gauge True bound) fun groups _ =>
        groups.length ≤ List.length ([] : Groups) + cur₁.left gauge bound) := by
    apply Cursor.drain_fair lasts fit₁ under₁ ?_ turns [] enough
    intro groups row e _ ready
    refine (ready.ofExcept_honest (grouping.merge_memoryless groups row)).mono ?_
    intro answer e' done
    cases answer with
    | error fault => exact done
    | ok groups' => exact ⟨done.1, grouping.length_of_merge done.2⟩
  refine drained.fair_bind ?_
  intro groups cur₂ e₂ fit₂ under₂ few
  have made := Ensures.fair_engine under₂ (under₂.ready.ofExcept_honest (grouping.results_memoryless groups)) fit₂
  apply made.fair_mono
  intro rows cur₃ done
  obtain ⟨-, results⟩ := done
  refine ⟨?_, ?_⟩
  · intro row among
    obtain ⟨⟨key, tally⟩, -, built⟩ := mem_of_mapM results row among
    exact grouping.conforms_of_resultRow built
  · have most := fit₁.left_le lasts
    rw [Grouping.length_of_mapM results]
    simp only [List.length_nil] at few
    omega

end Aggregating

def Gauge.aggregate {child : Source} (types : List ColType) (gauge : child.Gauge) (grouping : Grouping) :
    (aggregate grouping child).Gauge where
  good := Aggregating.Fit types gauge grouping.output.types
  left _ (a : Aggregating child) := a.rest.length
  most := gauge.most

theorem aggregate_lasts {child : Source} {gauge : child.Gauge} (lasts : child.Lasts c settings types gauge)
    (grouping : Grouping) :
    (aggregate grouping child).Lasts c settings grouping.output.types (gauge.aggregate types grouping) where
  wider wider fit := ⟨fit.child.fit_of_le lasts wider, fit.results.imp_right (Nat.le_trans · (lasts.grows wider)),
    fit.rest.imp_right (Nat.le_trans · (lasts.grows wider))⟩
  grows := lasts.grows
  initial bound := ⟨Cursor.fit_new lasts bound, by simp [aggregate], by simp [aggregate]⟩
  finish _ _ fit := ⟨fit.child.fit_close lasts, by simp [aggregate], by simp [aggregate]⟩
  replay again same _ _ fit := by
    cases same
    exact ⟨fit.child, fit.results, fit.results⟩
  bounded fit := fit.rest.2
  limit := lasts.limit
  start {bound a e} fit under := by
    have summarised : Ensures (Aggregating.onChild (Aggregating.summarise grouping)) (a, e)
        (Fair c settings bound (Aggregating.Fit types gauge grouping.output.types bound) fun rows _ =>
          (∀ row ∈ rows, row.Conforms grouping.output.types) ∧ rows.length ≤ gauge.most bound) := by
      apply (Aggregating.summarise_fair lasts fit.child under grouping).fair_within
      · intro child holds
        exact ⟨holds, fit.results, fit.rest⟩
      · intro rows child given
        exact given
    refine summarised.fair_bind ?_
    intro rows a₁ e₁ fit₁ under₁ given
    exact ⟨⟨fit₁.child, given, given⟩, under₁, trivial⟩
  fetch {bound a e} fit under := by
    obtain ⟨child, results, rest⟩ := a
    cases rest with
    | nil => exact ⟨fit, under, fun _ same => absurd same (by simp), Nat.le_refl _⟩
    | cons row rest =>
      obtain ⟨conform, few⟩ := fit.rest
      refine ⟨⟨fit.child, fit.results, ?_, Nat.le_of_lt few⟩, under, ?_, Nat.le_refl _⟩
      · intro other later
        exact conform other (List.mem_cons_of_mem _ later)
      · intro given same
        cases same
        exact conform row List.mem_cons_self

/-! ### Changing tables -/

namespace Changing

variable {child : Source} {gauge : child.Gauge} {bound : TableId → Nat}

/-- What is done with every row does not let files grow further than they may. -/
def Serves (c : Catalog) (settings : Settings) (types : List ColType) (act : Row → Action Unit) : Prop :=
  ∀ row e, row.Conforms types → Ready c settings e → Ensures (act row) e (Honest c settings e fun _ => True)

theorem visitAll_fair (lasts : child.Lasts c settings types gauge) {act : Row → Action Unit}
    (serves : Serves c settings types act) {cur : Cursor child} {e : Engine} (fit : cur.Fit types gauge True bound)
    (under : Under c settings bound e) :
    Ensures (visitAll act) (cur, e) (Fair c settings bound (Cursor.Fit types gauge True bound) fun _ _ => True) := by
  apply Cursor.turns_fair lasts fit under
  intro turns enough
  have drained : Ensures (Cursor.drain (visit act) turns 0) (cur, e)
      (Fair c settings bound (Cursor.Fit types gauge True bound) fun count _ => count ≤ 0 + cur.left gauge bound) := by
    apply Cursor.drain_fair lasts fit under ?_ turns 0 enough
    intro count row e conforms ready
    refine (serves row e conforms ready).bind ?_ ?_
    · intro _ e' done
      exact ⟨done.1, Nat.le_refl _⟩
    · intro fault e' failed
      exact failed
  exact drained.fair_mono fun _ _ _ => trivial

end Changing

/-- A change that is not done deals with all rows of its child when it is asked for its row, and then it is done
and has their number. -/
theorem change_ensures {child : Source} {act : Row → Action Unit} {s : Changing child} {e : Engine}
    {post : Except Fault Nat → Cursor child × Engine → Prop}
    {goal : Except Fault (Option Row) → Changing child × Engine → Prop} (name : String) (undone : s.done = false)
    (visited : Ensures (Changing.visitAll act) (s.child, e) post)
    (counted : ∀ count after, post (.ok count) after →
      goal ((countRow name count).map some) (⟨after.1, true⟩, after.2))
    (failed : ∀ fault after, post (.error fault) after → goal (.error fault) (⟨after.1, false⟩, after.2)) :
    Ensures (change name act child).fetch (s, e) goal := by
  have whole : Ensures (Changing.onChild (Changing.visitAll act)) (s, e) fun answer after =>
      after.1.done = false ∧ post answer (after.1.child, after.2) := visited.within_step fun _ _ came => ⟨undone, came⟩
  refine .here_bind ?_
  rw [if_neg (by simp [undone])]
  refine whole.bind ?_ ?_
  · rintro count ⟨⟨cur, _⟩, e'⟩ ⟨rfl, came⟩
    have given := counted count (cur, e') came
    refine .update_bind ?_
    cases found : countRow name count <;>
      · rw [found] at given
        exact given
  · rintro fault ⟨⟨cur, _⟩, e'⟩ ⟨rfl, came⟩
    exact failed fault (cur, e') came

def Gauge.change {child : Source} (types : List ColType) (gauge : child.Gauge) (name : String)
    (act : Row → Action Unit) : (change name act child).Gauge where
  good bound (s : Changing child) := s.child.Fit types gauge True bound
  left _ (s : Changing child) := if s.done then 0 else 1
  most _ := 1

theorem change_lasts {child : Source} {gauge : child.Gauge} (lasts : child.Lasts c settings types gauge)
    (name : String) {act : Row → Action Unit} (serves : Changing.Serves c settings types act) :
    (change name act child).Lasts c settings (Plan.countSchema name).types (gauge.change types name act) where
  wider wider fit := Cursor.Fit.fit_of_le lasts fit wider
  grows _ := Nat.le_refl _
  initial bound := Cursor.fit_new lasts bound
  finish _ _ fit := Cursor.Fit.fit_close lasts fit
  replay again same := absurd same (by simp [change])
  bounded {bound s} _ := by
    simp only [Gauge.change]
    split <;> omega
  limit _ := Nat.le_refl _
  start {bound s e} fit under := by
    apply (Cursor.start_fair lasts fit under).fair_within
    · intro child holds
      exact holds
    · intro _ _ _
      trivial
  fetch {bound s e} fit under := by
    by_cases done : s.done
    · refine .here_bind ?_
      rw [if_pos done]
      exact ⟨fit, under, fun _ same => absurd same (by simp), Nat.le_refl _⟩
    · refine change_ensures name (by simpa using done) (Changing.visitAll_fair lasts serves fit under) ?_ ?_
      · rintro count ⟨cur, e'⟩ ⟨fit', under', -⟩
        cases built : countRow name count with
        | error fault =>
          refine ⟨fit', under'.halted_of_not_full ?_⟩
          rintro rfl
          exact countRow_memoryless name count built
        | ok row =>
          refine ⟨fit', under', ?_, by simp [Gauge.change, done]⟩
          rintro given ⟨⟩
          exact conforms_of_countRow built
      · exact fun _ _ halted => halted

end Source

/-! ### Plans -/

theorem Plan.Sound.exists_lasts {c : Catalog} {plan : Plan} (sound : plan.Sound c) (settings : Settings) :
    ∃ gauge, plan.source.Lasts c settings plan.schema.types gauge := by
  induction plan with
  | rows schema list => exact ⟨_, Source.ofRows_lasts list sound⟩
  | scan of => exact ⟨_, Source.ofTable_lasts of sound⟩
  | filter condition child ih =>
    obtain ⟨gauge, lasts⟩ := ih sound
    exact ⟨_, Source.filter_lasts lasts condition⟩
  | join condition left right ih ih' =>
    obtain ⟨gauge, lasts⟩ := ih sound.1
    obtain ⟨gauge', lasts'⟩ := ih' sound.2
    exact ⟨_, Source.join_lasts lasts lasts' condition⟩
  | aggregate grouping child ih =>
    obtain ⟨gauge, lasts⟩ := ih sound
    exact ⟨_, Source.aggregate_lasts lasts grouping⟩
  | insert table txn child ih =>
    obtain ⟨gauge, lasts⟩ := ih sound
    refine ⟨_, Source.change_lasts lasts "Inserted" ?_⟩
    intro row e conforms ready
    exact (insert_honest ready txn table row conforms.fits_own_schema).bind (fun _ _ done => done) fun _ _ failed =>
      failed
  | delete txn child ih =>
    obtain ⟨gauge, lasts⟩ := ih sound
    refine ⟨_, Source.change_lasts lasts "Deleted" ?_⟩
    intro row e _ ready
    exact (delete_honest ready txn row.location).bind (fun _ _ done => done) fun _ _ failed => failed

end RowStore
