import RowStore.Plan.Run
import RowStore.Proofs.Plan.Cursors
/-!
# Plans beside twin engines

Every source does the same beside twin engines, and so does a plan whose tables are registered: one
source is built on another just as the plan is.
-/

namespace RowStore

open Engine

theorem Schema.types_qualified (s : Schema) (owner : String) : (s.qualified owner).types = s.types := by
  rw [types, types, qualified, List.map_map]
  rfl

theorem Schema.types_append (s t : Schema) : (s ++ t).types = s.types ++ t.types := List.map_append

theorem Except.bind_eq_ok {α β : Type} {x : Except Fault α} {next : α → Except Fault β} {b : β}
    (done : (x >>= next) = .ok b) : ∃ a, x = .ok a ∧ next a = .ok b := by
  cases x with
  | error fault => exact absurd done (by simp [bind, Except.bind])
  | ok a => exact ⟨a, rfl, done⟩

theorem mem_of_mapM {α β : Type} {f : α → Except Fault β} {asked : List α} {answers : List β}
    (done : asked.mapM f = .ok answers) (b : β) (among : b ∈ answers) : ∃ a ∈ asked, f a = .ok b := by
  induction asked generalizing answers with
  | nil =>
    cases done
    exact absurd among (by simp)
  | cons a rest ih =>
    rw [List.mapM_cons] at done
    obtain ⟨head, first, done⟩ := Except.bind_eq_ok done
    obtain ⟨tail, later, same⟩ := Except.bind_eq_ok done
    cases same
    rcases List.mem_cons.mp among with rfl | among
    · exact ⟨a, List.mem_cons_self, first⟩
    · obtain ⟨a', here, same⟩ := ih later among
      exact ⟨a', List.mem_cons_of_mem _ here, same⟩

theorem Row.conforms_of_build {schema : Schema} {values : List Value} {row : Row}
    (built : Row.build schema values = .ok row) : row.Conforms schema.types := by
  obtain ⟨fits, rfl⟩ := (Row.build_eq_ok_iff schema values row).mp built
  exact ⟨rfl, fits⟩

theorem Grouping.conforms_of_resultRow (grouping : Grouping) {key : Option Value} {tally : Tally} {row : Row}
    (built : grouping.resultRow key tally = .ok row) : row.Conforms grouping.output.types := by
  obtain ⟨value, -, built⟩ := Except.bind_eq_ok built
  exact Row.conforms_of_build built

theorem Row.conforms_joined {schema : Schema} {types types' : List ColType} {l r : Row}
    (left : l.Conforms types) (right : r.Conforms types') (schemas : schema.types = types ++ types') :
    (Row.joined schema l r).Conforms schema.types := by
  refine ⟨rfl, ?_⟩
  rw [schemas]
  exact List.rel_append left.fits right.fits

namespace Source

variable {c : Catalog}

theorem ofRows_keeps (types : List ColType) (rows : List Row) (conform : ∀ row ∈ rows, row.Conforms types) :
    (ofRows rows).Keeps c types fun (rest : List Row) => ∀ row ∈ rest, row.Conforms types where
  initial := conform
  finish _ holds := holds
  replay again same := absurd same (by simp [ofRows])
  start s e₁ e₂ _ twins := ⟨rfl, ⟨rfl, conform, twins⟩, trivial⟩
  fetch s e₁ e₂ holds twins := by
    cases s with
    | nil => exact ⟨rfl, ⟨rfl, holds, twins⟩, fun _ same => absurd same (by simp)⟩
    | cons row rest =>
      refine ⟨rfl, ⟨rfl, fun other later => holds other (List.mem_cons_of_mem _ later), twins⟩, ?_⟩
      intro given same
      cases same
      exact holds row List.mem_cons_self

/-- The scan that has been begun, if there is one, is of the table. -/
def Scanning (c : Catalog) (table : TableId) (state : Option FileScan) : Prop :=
  ∀ scan, state = some scan → scan.Sound table (Row.Suits c table)

theorem ofTable_keeps (s : ScanOf) (found : c.find? s.table = some s.entry) :
    (ofTable s).Keeps c s.schema.types (Scanning c s.table) where
  initial _ same := absurd same (by simp [ofTable])
  finish _ _ _ same := absurd same (by simp [ofTable])
  replay again same := absurd same (by simp [ofTable])
  start state e₁ e₂ _ twins := by
    refine ⟨rfl, ⟨rfl, ?_, twins⟩, trivial⟩
    intro scan same
    cases same
    exact FileScan.sound_start s.table _ s.entry.file s.txn
  fetch state e₁ e₂ holds twins := by
    cases state with
    | none => exact ⟨rfl, ⟨rfl, holds, twins⟩, fun _ same => absurd same (by simp)⟩
    | some scan =>
      let draw : Step (Option FileScan) (Option Row) :=
        Step.within (fun _ => scan) (fun _ scan => some scan) FileScan.next
      have drawn : Agrees (Paired c (Scanning c s.table)) draw draw (some scan, e₁) (some scan, e₂)
          (Given c (Scanning c s.table) fun answer => ∀ row, answer = some row → row.Suits c s.table) := by
        refine (FileScan.next_agrees (FileScan.gives_suiting c s.table) twins scan (holds scan rfl)).within_step ?_
        intro scan sound other same
        cases same
        exact sound
      refine drawn.bind_paired ?_
      intro answer state f₁ f₂ holds' twins' suits
      refine .pure ⟨rfl, ⟨rfl, holds', twins'⟩, ?_⟩
      intro row same
      obtain ⟨read, given, rfl⟩ := Option.map_eq_some_iff.mp same
      refine ⟨rfl, ?_⟩
      rw [ScanOf.schema, Schema.types_qualified]
      exact suits read given s.entry found

theorem filter_keeps {types : List ColType} {child : Source} {good : child.State → Prop}
    (keeps : child.Keeps c types good) (condition : Condition) :
    (filter condition child).Keeps c types (Cursor.Sound types good) where
  initial := Cursor.sound_new keeps
  finish _ sound := sound.sound_close keeps
  replay again same := absurd same (by simp [filter])
  start _ _ _ sound twins := Cursor.start_agrees keeps sound twins
  fetch _ _ _ sound twins := Cursor.find_agrees keeps sound twins condition.accepts _ _

/-! ### Joining -/

namespace Joining

variable {left right : Source} {types types' : List ColType} {good : left.State → Prop}
  {good' : right.State → Prop} {α : Type}

structure Sound (types types' : List ColType) (good : left.State → Prop) (good' : right.State → Prop)
    (j : Joining left right) : Prop where
  left : j.left.Sound types good
  right : j.right.Sound types' good'
  outer : Row.MayConform types j.outer

variable {j : Joining left right} (keeps : left.Keeps c types good) (keeps' : right.Keeps c types' good')
  (sound : j.Sound types types' good good') {e₁ e₂ : Engine}

include sound

theorem onLeft_agrees {act : Step (Cursor left) α} {yields : α → Prop}
    (agrees : Agrees (Paired c (Cursor.Sound types good)) act act (j.left, e₁) (j.left, e₂)
      (Given c (Cursor.Sound types good) yields)) :
    Agrees (Paired c (Sound types types' good good')) (onLeft act) (onLeft act) (j, e₁) (j, e₂)
      (Given c (Sound types types' good good') yields) := by
  refine Agrees.within_step agrees ?_
  intro left holds
  exact ⟨holds, sound.right, sound.outer⟩

theorem onRight_agrees {act₁ act₂ : Step (Cursor right) α} {yields : α → Prop}
    (agrees : Agrees (Paired c (Cursor.Sound types' good')) act₁ act₂ (j.right, e₁) (j.right, e₂)
      (Given c (Cursor.Sound types' good') yields)) :
    Agrees (Paired c (Sound types types' good good')) (onRight act₁) (onRight act₂) (j, e₁) (j, e₂)
      (Given c (Sound types types' good good') yields) := by
  refine Agrees.within_step agrees ?_
  intro right holds
  exact ⟨sound.left, holds, sound.outer⟩

variable (twins : Twins c e₁ e₂)

include keeps twins

theorem current_agrees :
    Agrees (Paired c (Sound types types' good good')) current current (j, e₁) (j, e₂)
      (Given c (Sound types types' good good') (Row.MayConform types)) := by
  obtain ⟨inLeft, inRight, outer⟩ := j
  cases outer with
  | some row => exact .of_ok rfl rfl ⟨rfl, ⟨rfl, sound, twins⟩, sound.outer⟩
  | none =>
    refine .congr rfl rfl ?_
    refine (onLeft_agrees sound (Cursor.pull_agrees keeps sound.left twins)).bind_paired ?_
    intro row s f₁ f₂ sound' twins' conforms
    exact ⟨rfl, ⟨rfl, ⟨sound'.left, sound'.right, conforms⟩, twins'⟩, conforms⟩

include keeps'

theorem nextPair_agrees (accepts : Row → Row → Bool) (turns₁ turns₂ : Nat) :
    Agrees (Paired c (Sound types types' good good')) (nextPair accepts turns₁) (nextPair accepts turns₂)
      (j, e₁) (j, e₂) (Given c (Sound types types' good good') fun pair =>
        ∀ l r, pair = some (l, r) → l.Conforms types ∧ r.Conforms types') := by
  induction turns₁ generalizing turns₂ j e₁ e₂ with
  | zero => exact .full_left
  | succ turns₁ ih =>
    cases turns₂ with
    | zero => exact .full_right
    | succ turns₂ =>
      refine (current_agrees keeps sound twins).bind_paired ?_
      intro answer j₁ f₁ f₂ sound₁ twins₁ conforms
      cases answer with
      | none => exact .pure ⟨rfl, ⟨rfl, sound₁, twins₁⟩, fun _ _ same => absurd same (by simp)⟩
      | some l =>
        have found := onRight_agrees sound₁ (Cursor.find_agrees keeps' sound₁.right twins₁ (accepts l)
          (right.limit f₁ + 2) (right.limit f₂ + 2))
        refine Agrees.bind_paired (.congr rfl rfl found) ?_
        intro match? j₂ g₁ g₂ sound₂ twins₂ conforms'
        cases match? with
        | some r =>
          refine .pure ⟨rfl, ⟨rfl, sound₂, twins₂⟩, ?_⟩
          intro l' r' same
          cases same
          exact ⟨conforms l rfl, conforms' r rfl⟩
        | none =>
          have sound₃ : Sound types types' good good' { j₂ with outer := none } :=
            ⟨sound₂.left, sound₂.right, fun _ same => absurd same (by simp)⟩
          refine .update_bind (.bind_paired (onRight_agrees sound₃ (Cursor.rewind_agrees keeps' sound₂.right twins₂))
            ?_)
          intro _ j₄ h₁ h₂ sound₄ twins₄ _
          exact ih sound₄ twins₄ turns₂

end Joining

theorem join_keeps {left right : Source} {schema schema' : Schema} {good : left.State → Prop}
    {good' : right.State → Prop} (keeps : left.Keeps c schema.types good)
    (keeps' : right.Keeps c schema'.types good') (condition : JoinCondition) :
    (join condition (schema ++ schema') left right).Keeps c (schema ++ schema').types
      (Joining.Sound schema.types schema'.types good good') where
  initial := ⟨Cursor.sound_new keeps, Cursor.sound_new keeps', fun _ same => absurd same (by simp [join])⟩
  finish _ sound := ⟨sound.left.sound_close keeps, sound.right.sound_close keeps', fun _ same =>
    absurd same (by simp [join])⟩
  replay again same := absurd same (by simp [join])
  start j e₁ e₂ sound twins := by
    refine (Joining.onLeft_agrees sound (Cursor.start_agrees keeps sound.left twins)).bind_paired ?_
    intro _ j₁ f₁ f₂ sound₁ twins₁ _
    refine (Joining.onRight_agrees sound₁ (Cursor.start_agrees keeps' sound₁.right twins₁)).bind_paired ?_
    intro _ j₂ g₁ g₂ sound₂ twins₂ _
    have sound₃ : Joining.Sound schema.types schema'.types good good' { j₂ with outer := none } :=
      ⟨sound₂.left, sound₂.right, fun _ same => absurd same (by simp)⟩
    exact ⟨rfl, ⟨rfl, sound₃, twins₂⟩, trivial⟩
  fetch j e₁ e₂ sound twins := by
    refine .theEngine_bind (.bind_paired (Joining.nextPair_agrees keeps keeps' sound twins condition.accepts
      (left.limit e₁ + 2) (left.limit e₂ + 2)) ?_)
    intro pair j₁ f₁ f₂ sound₁ twins₁ conform
    refine .pure ⟨rfl, ⟨rfl, sound₁, twins₁⟩, ?_⟩
    intro row same
    obtain ⟨⟨l, r⟩, here, rfl⟩ := Option.map_eq_some_iff.mp same
    obtain ⟨first, second⟩ := conform l r here
    exact Row.conforms_joined first second (Schema.types_append schema schema')

/-! ### Aggregates -/

namespace Aggregating

variable {child : Source} {types : List ColType} {good : child.State → Prop}

structure Sound (types : List ColType) (good : child.State → Prop) (output : List ColType)
    (a : Aggregating child) : Prop where
  child : a.child.Sound types good
  results : ∀ row ∈ a.results, row.Conforms output
  rest : ∀ row ∈ a.rest, row.Conforms output

theorem summarise_agrees (keeps : child.Keeps c types good) {cur : Cursor child}
    (sound : cur.Sound types good) {e₁ e₂ : Engine} (twins : Twins c e₁ e₂) (grouping : Grouping) :
    Agrees (Paired c (Cursor.Sound types good)) (summarise grouping) (summarise grouping) (cur, e₁) (cur, e₂)
      (Given c (Cursor.Sound types good) fun rows => ∀ row ∈ rows, row.Conforms grouping.output.types) := by
  refine (Cursor.start_agrees keeps sound twins).bind_paired ?_
  intro _ cur₁ f₁ f₂ sound₁ twins₁ _
  have merges : ∀ groups row e₁ e₂, row.Conforms types → Twins c e₁ e₂ →
      Agrees (Twins c) (Engine.ofExcept (grouping.merge groups row)) (Engine.ofExcept (grouping.merge groups row))
        e₁ e₂ (Alike (Twins c)) := by
    intro groups row e₁ e₂ _ twins
    exact (twins.ofExcept_twins (grouping.merge groups row)).mono fun _ _ _ _ done => ⟨done.1, done.2.1⟩
  refine Cursor.turns_bind (.bind_paired (Cursor.drain_agrees keeps sound₁ twins₁ merges
    (child.limit f₁ + 2) (child.limit f₂ + 2) []) ?_)
  intro groups cur₂ g₁ g₂ sound₂ twins₂ _
  refine ((twins₂.ofExcept_twins (grouping.results groups)).engine_step sound₂ ?_).mono fun _ _ _ _ done => done.1
  intro rows t₁ _ t₂ done
  obtain ⟨rfl, twins₃, results⟩ := done
  refine ⟨rfl, twins₃, ?_⟩
  intro row among
  obtain ⟨⟨key, tally⟩, -, built⟩ := mem_of_mapM results row among
  exact grouping.conforms_of_resultRow built

end Aggregating

theorem aggregate_keeps {child : Source} {types : List ColType} {good : child.State → Prop}
    (keeps : child.Keeps c types good) (grouping : Grouping) :
    (aggregate grouping child).Keeps c grouping.output.types
      (Aggregating.Sound types good grouping.output.types) where
  initial := ⟨Cursor.sound_new keeps, by simp [aggregate], by simp [aggregate]⟩
  finish _ sound := ⟨sound.child.sound_close keeps, by simp [aggregate], by simp [aggregate]⟩
  replay again same s sound := by
    cases same
    exact ⟨sound.child, sound.results, sound.results⟩
  start a e₁ e₂ sound twins := by
    have summarised : Agrees (Paired c (Aggregating.Sound types good grouping.output.types))
        (Aggregating.onChild (Aggregating.summarise grouping)) (Aggregating.onChild (Aggregating.summarise grouping))
        (a, e₁) (a, e₂) (Given c (Aggregating.Sound types good grouping.output.types)
          fun rows => ∀ row ∈ rows, row.Conforms grouping.output.types) := by
      refine Agrees.within_step (Aggregating.summarise_agrees keeps sound.child twins grouping) ?_
      intro child holds
      exact ⟨holds, sound.results, sound.rest⟩
    refine summarised.bind_paired ?_
    intro rows a₁ f₁ f₂ sound₁ twins₁ conform
    exact ⟨rfl, ⟨rfl, ⟨sound₁.child, conform, conform⟩, twins₁⟩, trivial⟩
  fetch a e₁ e₂ sound twins := by
    obtain ⟨child, results, rest⟩ := a
    cases rest with
    | nil => exact ⟨rfl, ⟨rfl, sound, twins⟩, fun _ same => absurd same (by simp)⟩
    | cons row rest =>
      have conform := sound.rest
      have sound' : Aggregating.Sound types good grouping.output.types ⟨child, results, rest⟩ :=
        ⟨sound.child, sound.results, fun other later => conform other (List.mem_cons_of_mem _ later)⟩
      refine ⟨rfl, ⟨rfl, sound', twins⟩, ?_⟩
      intro given same
      cases same
      exact conform row List.mem_cons_self

/-! ### Changing tables -/

namespace Changing

variable {child : Source} {types : List ColType} {good : child.State → Prop} {α : Type}

def Sound (types : List ColType) (good : child.State → Prop) (s : Changing child) : Prop :=
  s.child.Sound types good

theorem onChild_agrees {act : Step (Cursor child) α} {yields : α → Prop} {s : Changing child} {e₁ e₂ : Engine}
    (agrees : Agrees (Paired c (Cursor.Sound types good)) act act (s.child, e₁) (s.child, e₂)
      (Given c (Cursor.Sound types good) yields)) :
    Agrees (Paired c (Sound types good)) (onChild act) (onChild act) (s, e₁) (s, e₂)
      (Given c (Sound types good) yields) := by
  refine Agrees.within_step agrees ?_
  intro child holds
  exact holds

/-- What is done with every row is done beside twin engines in the same way. -/
def Acts (c : Catalog) (types : List ColType) (act : Row → Action Unit) : Prop :=
  ∀ row e₁ e₂, row.Conforms types → Twins c e₁ e₂ →
    Agrees (Twins c) (act row) (act row) e₁ e₂ (Alike (Twins c))

theorem visitAll_agrees (keeps : child.Keeps c types good) {act : Row → Action Unit} (acts : Acts c types act)
    {cur : Cursor child} (sound : cur.Sound types good) {e₁ e₂ : Engine} (twins : Twins c e₁ e₂) :
    Agrees (Paired c (Cursor.Sound types good)) (visitAll act) (visitAll act) (cur, e₁) (cur, e₂)
      (Given c (Cursor.Sound types good) fun _ => True) := by
  refine Cursor.turns_bind (Cursor.drain_agrees keeps sound twins ?_ _ _ 0)
  intro count row f₁ f₂ conforms twins'
  refine (acts row f₁ f₂ conforms twins').bind ?_
  intro _ t₁ _ t₂ done
  exact .pure ⟨rfl, done.2⟩

theorem visitAll_eq (act : Row → Action Unit) (cur : Cursor child) (e : Engine) :
    visitAll act (cur, e) = Cursor.drain (visit act) (child.limit e + 2) 0 (cur, e) := rfl

end Changing

theorem conforms_of_countRow {name : String} {count : Nat} {row : Row} (counted : countRow name count = .ok row) :
    row.Conforms (Plan.countSchema name).types := by
  rw [countRow] at counted
  cases small : Value.ofInt? count with
  | none =>
    rw [small] at counted
    exact absurd counted (by simp)
  | some value =>
    rw [small] at counted
    exact Row.conforms_of_build counted

theorem values_of_countRow {name : String} {count : Nat} {row : Row} (counted : countRow name count = .ok row) :
    ∃ n : Int32, row.values = [.int n] ∧ n.toInt = count := by
  rw [countRow, Value.ofInt?] at counted
  split at counted
  · rename_i value small
    split at small
    · rename_i inside
      cases small
      obtain ⟨-, rfl⟩ := (Row.build_eq_ok_iff ..).mp counted
      have least : Int32.minValue.toInt = -2147483648 := by decide
      have most : Int32.maxValue.toInt = 2147483647 := by decide
      rw [least, most] at inside
      exact ⟨_, rfl, Int32.toInt_ofInt_of_le inside.1 (by omega)⟩
    · exact absurd small (by simp)
  · exact absurd counted (by simp)

theorem change_keeps {child : Source} {types : List ColType} {good : child.State → Prop}
    (keeps : child.Keeps c types good) (name : String) {act : Row → Action Unit}
    (acts : Changing.Acts c types act) :
    (change name act child).Keeps c (Plan.countSchema name).types (Changing.Sound types good) where
  initial := Cursor.sound_new keeps
  finish _ sound := Cursor.Sound.sound_close keeps sound
  replay again same := absurd same (by simp [change])
  start s e₁ e₂ sound twins := Changing.onChild_agrees (Cursor.start_agrees keeps sound twins)
  fetch s e₁ e₂ sound twins := by
    refine .here_bind ?_
    by_cases done : s.done
    · rw [if_pos done]
      exact ⟨rfl, ⟨rfl, sound, twins⟩, fun _ same => absurd same (by simp)⟩
    · rw [if_neg done]
      refine .bind_paired (Changing.onChild_agrees (Changing.visitAll_agrees keeps acts sound twins)) ?_
      intro count s₁ f₁ f₂ sound₁ twins₁ _
      have sound₂ : Changing.Sound types good { s₁ with done := true } := sound₁
      have counted : Agrees (Paired c (Changing.Sound types good))
          (Step.engine (Engine.ofExcept (countRow name count))) (Step.engine (Engine.ofExcept (countRow name count)))
          ({ s₁ with done := true }, f₁) ({ s₁ with done := true }, f₂)
          fun a t₁ b t₂ => Given c (Changing.Sound types good) (Row.Conforms (Plan.countSchema name).types) a t₁ b t₂ ∧
            t₁.1 = { s₁ with done := true } := by
        refine (twins₁.ofExcept_twins (countRow name count)).engine_step sound₂ ?_
        intro row t₁ _ t₂ built
        obtain ⟨rfl, twins₂, counted⟩ := built
        exact ⟨rfl, twins₂, conforms_of_countRow counted⟩
      refine .update_bind (counted.map ?_)
      intro row t₁ _ t₂ built
      obtain ⟨⟨rfl, left, conforms⟩, -⟩ := built
      refine ⟨rfl, left, ?_⟩
      intro given same
      cases same
      exact conforms

end Source

/-! ### Plans -/

namespace Plan

/-- The rows that the plan has are rows of its schema, and the tables that it reads are registered. -/
def Sound (c : Catalog) : Plan → Prop
  | .rows schema list => ∀ row ∈ list, row.Conforms schema.types
  | .scan of => c.find? of.table = some of.entry
  | .filter _ child => child.Sound c
  | .join _ left right => left.Sound c ∧ right.Sound c
  | .aggregate _ child => child.Sound c
  | .insert _ _ child => child.Sound c
  | .delete _ child => child.Sound c

def scans : Plan → List ScanOf
  | .rows _ _ => []
  | .scan of => [of]
  | .filter _ child => child.scans
  | .join _ left right => left.scans ++ right.scans
  | .aggregate _ child => child.scans
  | .insert _ _ child => child.scans
  | .delete _ child => child.scans

variable {c : Catalog}

theorem resolveIn_eq_ok {table : TableId} {entry : TableEntry} (found : resolveIn c table = .ok entry) :
    c.find? table = some entry := by
  rw [resolveIn] at found
  cases here : c.find? table with
  | none =>
    rw [here] at found
    exact absurd found (by simp)
  | some other =>
    rw [here] at found
    cases found
    rfl

theorem sound_of_ofQuery (query : Query) {plan : Plan} (made : ofQuery c query = .ok plan) : plan.Sound c := by
  induction query generalizing plan with
  | rows schema lists =>
    obtain ⟨rows, built, same⟩ := Except.bind_eq_ok made
    cases same
    intro row among
    obtain ⟨values, -, done⟩ := mem_of_mapM built row among
    exact Row.conforms_of_build done
  | scan table txn owner =>
    obtain ⟨entry, found, same⟩ := Except.bind_eq_ok made
    cases same
    exact resolveIn_eq_ok found
  | filter condition child ih =>
    obtain ⟨inner, first, same⟩ := Except.bind_eq_ok made
    cases same
    show inner.Sound c
    exact ih first
  | join condition left right ih ih' =>
    obtain ⟨l, first, rest⟩ := Except.bind_eq_ok made
    obtain ⟨r, second, same⟩ := Except.bind_eq_ok rest
    cases same
    exact ⟨ih first, ih' second⟩
  | aggregate groupBy field summary child ih =>
    obtain ⟨inner, first, rest⟩ := Except.bind_eq_ok made
    obtain ⟨grouping, -, same⟩ := Except.bind_eq_ok rest
    cases same
    show inner.Sound c
    exact ih first
  | insert table txn child ih =>
    obtain ⟨inner, first, rest⟩ := Except.bind_eq_ok made
    obtain ⟨entry, -, rest⟩ := Except.bind_eq_ok rest
    by_cases types : inner.schema.sameTypes entry.schema
    · rw [if_pos types] at rest
      cases rest
      show inner.Sound c
      exact ih first
    · rw [if_neg types] at rest
      exact absurd rest (by simp [throw, throwThe, MonadExceptOf.throw])
  | delete txn child ih =>
    obtain ⟨inner, first, same⟩ := Except.bind_eq_ok made
    cases same
    show inner.Sound c
    exact ih first

/-- The source of a plan that reads registered tables does the same beside twin engines. -/
theorem Sound.exists_keeps {plan : Plan} (sound : plan.Sound c) :
    ∃ good, plan.source.Keeps c plan.schema.types good := by
  induction plan with
  | rows schema list => exact ⟨_, Source.ofRows_keeps schema.types list sound⟩
  | scan of => exact ⟨_, Source.ofTable_keeps of sound⟩
  | filter condition child ih =>
    obtain ⟨good, keeps⟩ := ih sound
    exact ⟨_, Source.filter_keeps keeps condition⟩
  | join condition left right ih ih' =>
    obtain ⟨good, keeps⟩ := ih sound.1
    obtain ⟨good', keeps'⟩ := ih' sound.2
    exact ⟨_, Source.join_keeps keeps keeps' condition⟩
  | aggregate grouping child ih =>
    obtain ⟨good, keeps⟩ := ih sound
    exact ⟨_, Source.aggregate_keeps keeps grouping⟩
  | insert table txn child ih =>
    obtain ⟨good, keeps⟩ := ih sound
    refine ⟨_, Source.change_keeps keeps "Inserted" ?_⟩
    intro row e₁ e₂ conforms twins
    exact (twins.insert_agrees row conforms.fits_own_schema txn table).bind fun _ _ _ _ done => .pure ⟨rfl, done.2⟩
  | delete txn child ih =>
    obtain ⟨good, keeps⟩ := ih sound
    refine ⟨_, Source.change_keeps keeps "Deleted" ?_⟩
    intro row e₁ e₂ _ twins
    exact (twins.delete_agrees txn row.location).bind fun _ _ _ _ done => .pure ⟨rfl, done.2⟩

end Plan

end RowStore
