import Mathlib
import RowStore.Session
import RowStore.Proofs.Chronicle
import RowStore.Proofs.Plan.Sources
/-!
# However much memory there is

How many pages may be in memory, and which of them goes first, is nobody's business but the engine's.
Two databases that differ in nothing else give the same replies to the same commands and have the same
locks, changed pages and files after every one, as long as neither of them runs out of memory.
-/

namespace RowStore

/-! ### What is done in a session -/

/-- What may be done with a plan. -/
inductive Use where
  | start
  | close
  | rewind
  | hasNext
  | next
  | fetch
  | take (count : Nat)
  | collect

/-- Scans and plans are kept under names. -/
inductive Command where
  | begin
  | step (op : Op)
  | openScan (id : String) (txn : TxnId) (table : TableId)
  | drawScan (id : String) (count : Nat)
  | rewindScan (id : String)
  | openPlan (id : String) (query : Query)
  | usePlan (id : String) (use : Use)

inductive Reply where
  | done
  | begun (txn : TxnId)
  | answer (answer : Answer)
  | schema (schema : Schema)
  | more (isMore : Bool)
  | row (row : Option Row)
  | rows (rows : List (Option Row)) (fault : Option Fault)
deriving DecidableEq

def Reply.fault? : Except Fault Reply → Option Fault
  | .error fault => some fault
  | .ok (.answer a) => Answer.fault? (.ok a)
  | .ok (.rows _ fault) => fault
  | .ok _ => none

def Use.act {source : Source} : Use → Step (Cursor source) Reply
  | .start => do
    Cursor.start
    return .done
  | .close => do
    Step.update Cursor.close
    return .done
  | .rewind => do
    Cursor.rewind
    return .done
  | .hasNext => return .more (← Cursor.hasNext)
  | .next => return .row (some (← Cursor.next))
  | .fetch => return .row (← Cursor.fetch)
  | .take count => do
    let (rows, fault) ← Cursor.take count
    return .rows (rows.map some) fault
  | .collect => return .rows ((← Cursor.collect).map some) none

/-- Where there is no scan or plan of the name nothing is done. -/
def Command.run : Command → Request Reply
  | .begin => return .begun (← Session.begin)
  | .step op => return .answer (← Session.engineAct op.act)
  | .openScan id txn table => do
    Session.openScan id txn table
    return .done
  | .drawScan id count => do
    let drawn ← Session.onScan id (FileScan.take count)
    return drawn.elim .done fun (rows, fault) => .rows rows fault
  | .rewindScan id => do
    let _ ← Session.onScan id (Step.update FileScan.rewind)
    return .done
  | .openPlan id query => return .schema (← Session.openPlan id query).schema
  | .usePlan id use => return (← Session.onPlan id use.act).getD .done

theorem Command.run_step (s : Session) (op : Op) : outcome (run (.step op)) s =
    ((outcome op.act s.engine).1.map .answer, { s with engine := (outcome op.act s.engine).2 }) := by
  change outcome (EStateM.bind (Session.engineAct op.act) _) s = _
  rw [outcome, outcome, EStateM.bind, Session.engineAct]
  cases op.act s.engine <;> rfl

namespace Session

variable {s : Session} {α : Type} {id : String}

theorem engineAct_ensures {act : Action α} {goal : Except Fault α → Session → Prop}
    (ensured : Ensures act s.engine fun answer e => goal answer { s with engine := e }) :
    Ensures (engineAct act) s goal := by
  rw [Ensures, engineAct]
  cases result : act s.engine with
  | ok a e => exact ensured.of_ok result
  | error fault e => exact ensured.of_error result

theorem onScan_ensures {act : Step FileScan α} {goal : Except Fault (Option α) → Session → Prop}
    (absent : s.scans.get? id = none → goal (.ok none) s)
    (here : ∀ scan, s.scans.get? id = some scan → Ensures act (scan, s.engine) fun answer left =>
      goal (answer.map some) { s with engine := left.2, scans := s.scans.insert id left.1 }) :
    Ensures (onScan id act) s goal := by
  rw [Ensures, onScan]
  cases known : s.scans.get? id with
  | none => exact absent known
  | some scan =>
    dsimp only
    cases result : act (scan, s.engine) with
    | ok a left => exact (here scan known).of_ok result
    | error fault left => exact (here scan known).of_error result

theorem onPlan_ensures {act : {source : Source} → Step (Cursor source) α}
    {goal : Except Fault (Option α) → Session → Prop} (absent : s.plans.get? id = none → goal (.ok none) s)
    (here : ∀ plan (cursor : Cursor plan.source), s.plans.get? id = some ⟨plan, cursor⟩ →
      Ensures act (cursor, s.engine) fun answer left =>
        goal (answer.map some) { s with engine := left.2, plans := s.plans.insert id ⟨plan, left.1⟩ }) :
    Ensures (onPlan id act) s goal := by
  rw [Ensures, onPlan]
  cases known : s.plans.get? id with
  | none => exact absent known
  | some r =>
    obtain ⟨plan, cursor⟩ := r
    dsimp only
    cases result : act (cursor, s.engine) with
    | ok a left => exact (here plan cursor known).of_ok result
    | error fault left => exact (here plan cursor known).of_error result

end Session

/-- What is to be seen of a session after a command: the reply, the pages with changes of each
transaction, the locks and the files. -/
structure Moment where
  reply : Except Fault Reply
  dirty : TxnId → List PageId
  locks : LockTable
  volume : Volume

def Session.trace (s : Session) : List Command → List Moment
  | [] => []
  | command :: rest =>
    let (reply, s) := outcome command.run s
    ⟨reply, s.engine.dirtyPages, s.engine.locks, s.engine.volume⟩ :: s.trace rest

/-! ### Sessions on engines that differ only in memory -/

/-- The plan does the same beside twin engines from where it has got to. -/
def RunningPlan.Sound (c : Catalog) (r : RunningPlan) : Prop :=
  ∃ good, r.plan.source.Keeps c r.plan.schema.types good ∧ r.cursor.Sound r.plan.schema.types good

structure Session.Twins (c : Catalog) (s₁ s₂ : Session) : Prop where
  engines : Engine.Twins c s₁.engine s₂.engine
  begun : s₁.begun = s₂.begun
  plans : s₁.plans = s₂.plans
  scans : s₁.scans = s₂.scans
  running : ∀ id r, s₁.plans.get? id = some r → r.Sound c

/-- The lack of room in memory has cut the answer short. -/
def Answer.Full (answer : Answer) : Prop := Answer.fault? (.ok answer) = some .poolFull

def Reply.Full (reply : Reply) : Prop := Reply.fault? (.ok reply) = some .poolFull

theorem Reply.not_full_of_room {reply : Except Fault Reply} (room : Reply.fault? reply ≠ some .poolFull) :
    reply ≠ .error .poolFull ∧ ∀ r, reply = .ok r → ¬r.Full := by
  refine ⟨?_, ?_⟩
  · rintro rfl
    exact room rfl
  · rintro r rfl
    exact room

variable {c : Catalog}

theorem Op.act_agrees {e₁ e₂ : Engine} (twins : Engine.Twins c e₁ e₂) (op : Op) :
    Agrees (Engine.Twins c) op.act op.act e₁ e₂ (Partly (Engine.Twins c) Answer.Full) := by
  cases op with
  | insert txn table schema values =>
    refine (twins.ofExcept_twins (Row.build schema values)).bind ?_
    intro row t₁ _ t₂ built
    obtain ⟨rfl, twins', built⟩ := built
    have fits := (Row.conforms_of_build built).fits_own_schema
    refine (twins'.insert_agrees row fits txn table).bind ?_
    intro location u₁ _ u₂ stored
    obtain ⟨rfl, twins''⟩ := stored
    exact .pure (.of_twins twins'')
  | delete txn row =>
    refine (twins.delete_agrees txn row).bind ?_
    intro p t₁ _ t₂ removed
    obtain ⟨rfl, twins'⟩ := removed
    exact .pure (.of_twins twins')
  | read txn page mode =>
    refine (twins.getPage_agrees txn page mode).bind ?_
    intro found t₁ _ t₂ gotten
    obtain ⟨rfl, twins', -⟩ := gotten
    exact .pure (.of_twins twins')
  | scan s count =>
    have gives : FileScan.Gives c s.table fun _ => True := fun _ _ _ _ _ _ _ _ _ => trivial
    have taken := FileScan.take_agrees gives twins s ⟨rfl, fun _ _ => trivial⟩ count
    obtain ⟨a, t₁, done₁⟩ := (FileScan.take_succeeds count (s, e₁)).exists_ok
    obtain ⟨b, t₂, done₂⟩ := (FileScan.take_succeeds count (s, e₂)).exists_ok
    rw [Agrees, outcome, outcome, done₁, done₂] at taken
    have drawn : ∀ e a t, FileScan.take count (s, e) = .ok a t →
        (Op.scan s count).act e = .ok (.rows a.1 a.2) t.2 := by
      intro e a t done
      rw [Op.act, FileScan.draw, done]
    refine .of_ok (drawn e₁ a t₁ done₁) (drawn e₂ b t₂ done₂) ?_
    refine taken.map (fun answer => Answer.rows answer.1 answer.2) ?_ fun left => left.twins
    intro answer short
    exact short
  | commit txn =>
    refine (twins.commit_agrees txn).bind ?_
    intro _ t₁ _ t₂ done
    exact .pure (.of_twins done.2)
  | abort txn =>
    refine (twins.abort_agrees txn).bind ?_
    intro _ t₁ _ t₂ done
    exact .pure (.of_twins done.2)

theorem Use.act_agrees {source : Source} {types : List ColType} {good : source.State → Prop}
    (keeps : source.Keeps c types good) {cur : Cursor source} (sound : cur.Sound types good)
    {e₁ e₂ : Engine} (twins : Engine.Twins c e₁ e₂) (use : Use) :
    Agrees (Paired c (Cursor.Sound types good)) use.act use.act (cur, e₁) (cur, e₂)
      (Partly (Paired c (Cursor.Sound types good)) Reply.Full) := by
  cases use with
  | start =>
    exact (Cursor.start_agrees keeps sound twins).bind fun _ _ _ _ given => .pure (.of_twins given.left)
  | close =>
    exact .update_bind (.pure (.of_twins ⟨rfl, sound.sound_close keeps, twins⟩))
  | rewind =>
    exact (Cursor.rewind_agrees keeps sound twins).bind fun _ _ _ _ given => .pure (.of_twins given.left)
  | hasNext =>
    refine (Cursor.hasNext_agrees keeps sound twins).bind ?_
    intro isMore t₁ _ t₂ given
    obtain ⟨rfl, left, -⟩ := given
    exact .pure (.of_twins left)
  | next =>
    refine (Cursor.next_agrees keeps sound twins).bind ?_
    intro row t₁ _ t₂ given
    obtain ⟨rfl, left, -⟩ := given
    exact .pure (.of_twins left)
  | fetch =>
    refine (Cursor.fetch_agrees keeps sound twins).bind ?_
    intro row t₁ _ t₂ given
    obtain ⟨rfl, left, -⟩ := given
    exact .pure (.of_twins left)
  | take count =>
    refine (Cursor.take_agrees keeps sound twins count).bind ?_
    intro a t₁ b t₂ taken
    exact .pure (taken.map (fun answer => Reply.rows (answer.1.map some) answer.2) (fun _ short => short) id)
  | collect =>
    refine (Cursor.collect_agrees keeps sound twins).bind ?_
    intro rows t₁ _ t₂ given
    obtain ⟨rfl, left, -⟩ := given
    exact .pure (.of_twins left)

namespace Session

variable {s₁ s₂ : Session} (twins : Twins c s₁ s₂) {α : Type} {full : α → Prop}

include twins

theorem engineAct_agrees {act : Action α} (agrees : Agrees (Engine.Twins c) act act s₁.engine s₂.engine
    (Partly (Engine.Twins c) full)) :
    Agrees (Twins c) (engineAct act) (engineAct act) s₁ s₂ (Partly (Twins c) full) := by
  have inside : ∀ s, outcome (engineAct act) s =
      ((outcome act s.engine).1.map id, { s with engine := (outcome act s.engine).2 }) := by
    intro s
    rw [outcome, outcome, engineAct]
    cases act s.engine <;> rfl
  have after : ∀ t₁ t₂, Engine.Twins c t₁ t₂ → Twins c { s₁ with engine := t₁ } { s₂ with engine := t₂ } := by
    intro t₁ t₂ engines
    exact ⟨engines, twins.begun, twins.plans, twins.scans, twins.running⟩
  refine agrees.lift id ({ s₁ with engine := · }) ({ s₂ with engine := · }) (inside s₁) (inside s₂) after ?_
  intro a t₁ b t₂ done
  exact done.map id (fun _ short => short) (after t₁ t₂)

theorem onScan_agrees (id : String) {act : Step FileScan α} {full : Option α → Prop}
    (agrees : ∀ scan, Agrees (Paired c fun s : FileScan => s.Sound scan.table fun _ => True) act act
      (scan, s₁.engine) (scan, s₂.engine)
      (Partly (Paired c fun s : FileScan => s.Sound scan.table fun _ => True) fun a => full (some a))) :
    Agrees (Twins c) (onScan id act) (onScan id act) s₁ s₂ (Partly (Twins c) full) := by
  cases known : s₁.scans.get? id with
  | none =>
    have skipped : ∀ s : Session, s.scans = s₁.scans → onScan id act s = .ok none s := by
      intro s same
      rw [onScan, same, known]
    exact .of_ok (skipped s₁ rfl) (skipped s₂ twins.scans.symm) (.of_twins twins)
  | some scan =>
    have inside : ∀ s : Session, s.scans = s₁.scans → outcome (onScan id act) s =
        ((outcome act (scan, s.engine)).1.map some, { s with
          engine := (outcome act (scan, s.engine)).2.2
          scans := s.scans.insert id (outcome act (scan, s.engine)).2.1 }) := by
      intro s same
      rw [outcome, outcome, onScan, same, known]
      dsimp only
      cases act (scan, s.engine) <;> rfl
    have after : ∀ t₁ t₂ : FileScan × Engine,
        (Paired c fun s : FileScan => s.Sound scan.table fun _ => True) t₁ t₂ →
        Twins c { s₁ with engine := t₁.2, scans := s₁.scans.insert id t₁.1 }
          { s₂ with engine := t₂.2, scans := s₂.scans.insert id t₂.1 } := by
      intro t₁ t₂ left
      refine ⟨left.twins, twins.begun, twins.plans, ?_, twins.running⟩
      rw [twins.scans, left.same]
    refine (agrees scan).lift some (fun t => { s₁ with engine := t.2, scans := s₁.scans.insert id t.1 })
      (fun t => { s₂ with engine := t.2, scans := s₂.scans.insert id t.1 }) (inside s₁ rfl)
      (inside s₂ twins.scans.symm) after ?_
    intro a t₁ b t₂ done
    exact done.map some (fun _ short => short) (after t₁ t₂)

theorem onPlan_agrees (id : String) {act : {source : Source} → Step (Cursor source) α} {full : Option α → Prop}
    (agrees : ∀ {source : Source} {types : List ColType} {good : source.State → Prop},
      source.Keeps c types good → ∀ {cur : Cursor source}, cur.Sound types good →
        Agrees (Paired c (Cursor.Sound types good)) act act (cur, s₁.engine) (cur, s₂.engine)
          (Partly (Paired c (Cursor.Sound types good)) fun a => full (some a))) :
    Agrees (Twins c) (onPlan id act) (onPlan id act) s₁ s₂ (Partly (Twins c) full) := by
  cases known : s₁.plans.get? id with
  | none =>
    have skipped : ∀ s : Session, s.plans = s₁.plans → onPlan id act s = .ok none s := by
      intro s same
      rw [onPlan, same, known]
    exact .of_ok (skipped s₁ rfl) (skipped s₂ twins.plans.symm) (.of_twins twins)
  | some r =>
    obtain ⟨good, keeps, sound⟩ := twins.running id r known
    obtain ⟨plan, cursor⟩ := r
    have inside : ∀ s : Session, s.plans = s₁.plans → outcome (onPlan id act) s =
        ((outcome act (cursor, s.engine)).1.map some, { s with
          engine := (outcome act (cursor, s.engine)).2.2
          plans := s.plans.insert id ⟨plan, (outcome act (cursor, s.engine)).2.1⟩ }) := by
      intro s same
      rw [outcome, outcome, onPlan, same, known]
      dsimp only
      cases act (cursor, s.engine) <;> rfl
    have after : ∀ t₁ t₂, Paired c (Cursor.Sound plan.schema.types good) t₁ t₂ →
        Twins c { s₁ with engine := t₁.2, plans := s₁.plans.insert id ⟨plan, t₁.1⟩ }
          { s₂ with engine := t₂.2, plans := s₂.plans.insert id ⟨plan, t₂.1⟩ } := by
      intro t₁ t₂ left
      refine ⟨left.twins, twins.begun, ?_, twins.scans, ?_⟩
      · rw [twins.plans, left.same]
      · intro other r running
        rw [FinMap.get?_insert] at running
        split at running
        · cases running
          exact ⟨good, keeps, left.good⟩
        · exact twins.running other r running
    refine (agrees keeps sound).lift some (fun t => { s₁ with engine := t.2, plans := s₁.plans.insert id ⟨plan, t.1⟩ })
      (fun t => { s₂ with engine := t.2, plans := s₂.plans.insert id ⟨plan, t.1⟩ }) (inside s₁ rfl)
      (inside s₂ twins.plans.symm) after ?_
    intro a t₁ b t₂ done
    exact done.map some (fun _ short => short) (after t₁ t₂)

theorem openPlan_agrees (id : String) (query : Query) :
    Agrees (Twins c) (openPlan id query) (openPlan id query) s₁ s₂ (Alike (Twins c)) := by
  have catalog₁ := twins.engines.catalog
  have catalog₂ := twins.engines.to_sameFiles.catalog.symm.trans catalog₁
  cases made : Plan.ofQuery c query with
  | error fault =>
    have failed : ∀ s : Session, s.engine.catalog = c → openPlan id query s = .error fault s := by
      intro s catalog
      rw [openPlan, catalog, made]
    rw [Agrees, outcome, outcome, failed s₁ catalog₁, failed s₂ catalog₂]
    exact .error_of_twins twins
  | ok plan =>
    have opened : ∀ s : Session, s.engine.catalog = c → openPlan id query s =
        .ok plan { s with plans := s.plans.insert id ⟨plan, .new plan.source⟩ } := by
      intro s catalog
      rw [openPlan, catalog, made]
    refine .of_ok (opened s₁ catalog₁) (opened s₂ catalog₂) ⟨rfl, twins.engines, twins.begun, ?_, twins.scans, ?_⟩
    · rw [twins.plans]
    · intro other r running
      rw [FinMap.get?_insert] at running
      split at running
      · cases running
        obtain ⟨good, keeps⟩ := (Plan.sound_of_ofQuery query made).exists_keeps
        exact ⟨good, keeps, Cursor.sound_new keeps⟩
      · exact twins.running other r running

/-- What a command comes to is the same, unless there was no room for it. -/
theorem run_agrees (command : Command) :
    Agrees (Twins c) command.run command.run s₁ s₂ (Partly (Twins c) Reply.Full) := by
  cases command with
  | begin =>
    refine .inr (.inr ⟨?_, twins.engines, ?_, twins.plans, twins.scans, twins.running⟩)
    · exact congrArg (fun n => Reply.begun ⟨n + 1⟩) twins.begun
    · exact congrArg (· + 1) twins.begun
  | step op =>
    refine (engineAct_agrees twins (Op.act_agrees twins.engines op)).bind ?_
    intro a t₁ b t₂ done
    exact .pure (done.map Reply.answer (fun _ short => short) fun left => left)
  | openScan id txn table =>
    have resolved : Agrees (Engine.Twins c) (Engine.resolve table) (Engine.resolve table) s₁.engine s₂.engine
        (Partly (Engine.Twins c) fun _ => False) :=
      (twins.engines.resolve_agrees table).mono fun _ _ _ _ found => .inr (.inr ⟨found.1, found.2.1⟩)
    have opened : Agrees (Twins c) (openScan id txn table) (openScan id txn table) s₁ s₂ (Alike (Twins c)) := by
      refine (engineAct_agrees twins resolved).bind ?_
      intro entry t₁ _ t₂ found
      obtain ⟨rfl, twins'⟩ := (found.resolve_left not_false).resolve_left not_false
      refine ⟨rfl, twins'.engines, twins'.begun, twins'.plans, ?_, twins'.running⟩
      exact congrArg (·.insert id (.start entry.file table txn)) twins'.scans
    exact opened.bind fun _ _ _ _ done => .pure (.of_twins done.2)
  | drawScan id count =>
    have drawn : Agrees (Twins c) (onScan id (FileScan.take count)) (onScan id (FileScan.take count)) s₁ s₂
        (Partly (Twins c) fun drawn => ∃ answer, drawn = some answer ∧ Short answer) := by
      refine onScan_agrees twins id ?_
      intro scan
      have gives : FileScan.Gives c scan.table fun _ => True := fun _ _ _ _ _ _ _ _ _ => trivial
      refine (FileScan.take_agrees gives twins.engines scan ⟨rfl, fun _ _ => trivial⟩ count).mono ?_
      intro a t₁ b t₂ taken
      refine taken.map (fun answer => answer) ?_ fun left => left
      intro answer short
      exact ⟨answer, rfl, short⟩
    refine drawn.bind ?_
    intro a t₁ b t₂ done
    refine .pure (done.map (·.elim Reply.done fun (rows, fault) => .rows rows fault) ?_ fun left => left)
    intro drawn short
    obtain ⟨answer, rfl, short⟩ := short
    exact short
  | rewindScan id =>
    have rewound : Agrees (Twins c) (onScan id (Step.update FileScan.rewind)) (onScan id (Step.update FileScan.rewind))
        s₁ s₂ (Partly (Twins c) fun _ => False) := by
      refine onScan_agrees twins id ?_
      intro scan
      exact .inr (.inr ⟨rfl, rfl, FileScan.sound_start scan.table _ scan.file scan.txn, twins.engines⟩)
    refine rewound.bind ?_
    intro _ t₁ _ t₂ done
    exact .pure (done.map (fun _ => Reply.done) (fun _ never => never.elim) fun left => left)
  | openPlan id query =>
    refine (openPlan_agrees twins id query).bind ?_
    intro plan t₁ _ t₂ opened
    obtain ⟨rfl, twins'⟩ := opened
    exact .pure (.of_twins twins')
  | usePlan id use =>
    have used : Agrees (Twins c) (onPlan id use.act) (onPlan id use.act) s₁ s₂
        (Partly (Twins c) fun reply => (reply.getD .done).Full) := by
      refine onPlan_agrees twins id ?_
      intro source types good keeps cur sound
      exact Use.act_agrees keeps sound twins.engines use
    refine used.bind ?_
    intro a t₁ b t₂ done
    exact .pure (done.map (·.getD Reply.done) (fun _ short => short) fun left => left)

/-- As long as neither session runs out of memory the same is to be seen of both. -/
theorem trace_eq (commands : List Command)
    (room₁ : ∀ moment ∈ s₁.trace commands, Reply.fault? moment.reply ≠ some .poolFull)
    (room₂ : ∀ moment ∈ s₂.trace commands, Reply.fault? moment.reply ≠ some .poolFull) :
    s₁.trace commands = s₂.trace commands := by
  induction commands generalizing s₁ s₂ with
  | nil => rfl
  | cons command rest ih =>
    have agrees := run_agrees twins command
    rw [trace, List.forall_mem_cons] at room₁ room₂
    rw [trace, trace]
    obtain ⟨same, twins'⟩ := agrees.eq_of_room (Reply.not_full_of_room room₁.1) (Reply.not_full_of_room room₂.1)
    generalize outcome command.run s₁ = first at room₁ same twins' ⊢
    generalize outcome command.run s₂ = second at room₂ same twins' ⊢
    obtain ⟨x, t₁⟩ := first
    obtain ⟨y, t₂⟩ := second
    obtain rfl : x = y := same
    replace twins' : Twins c t₁ t₂ := twins'
    have dirty : t₁.engine.dirtyPages = t₂.engine.dirtyPages := funext twins'.engines.dirtyPages_eq
    have volume : t₁.engine.volume = t₂.engine.volume := twins'.engines.to_sameFiles.volume
    simp only [dirty, twins'.engines.locks_eq, volume, ih twins' room₁.2 room₂.2]

end Session

/-! ### Databases that differ only in memory -/

namespace Engine

theorem createTable_agrees {e₁ e₂ : Engine} (same : SameFiles e₁ e₂) (path : String) (schema : Schema)
    (name : String) :
    Agrees SameFiles (createTable path schema name) (createTable path schema name) e₁ e₂ (Alike SameFiles) := by
  rw [Agrees, outcome, outcome, createTable, createTable, same.pageSize, same.volume]
  cases checkPageSize e₁.settings.pageSize schema with
  | error fault => exact .error_of_twins same
  | ok _ =>
    cases e₁.volume.locate path with
    | error cause => exact .error_of_twins same
    | ok fileName =>
      have count : e₂.files.length = e₁.files.length := by
        have lengths := congrArg List.length same.files
        rw [List.length_map, List.length_map] at lengths
        exact lengths
      refine ⟨rfl, same.pageSize, rfl, ?_, ?_⟩
      · simp only [same.catalog, count]
      · simp only [List.map_append, same.files]

/-- The tables get the same numbers, and the same is registered under them. -/
theorem openTables_agrees {e₁ e₂ : Engine} (same : SameFiles e₁ e₂) (tables : List TableSpec) :
    Agrees SameFiles (openTables tables) (openTables tables) e₁ e₂ (Alike SameFiles) := by
  induction tables generalizing e₁ e₂ with
  | nil => exact .pure ⟨rfl, same⟩
  | cons t rest ih =>
    refine (createTable_agrees same t.path t.schema t.name).bind ?_
    intro table t₁ _ t₂ created
    obtain ⟨rfl, same'⟩ := created
    refine (ih same').bind ?_
    intro ids u₁ _ u₂ opened
    obtain ⟨rfl, same''⟩ := opened
    exact .pure ⟨rfl, same''⟩

/-- Engines on which nothing has been done differ in nothing else when they have the same tables. -/
theorem Registered.twins_of_same_files {e₁ e₂ : Engine} (left : Registered e₁) (right : Registered e₂)
    (same : SameFiles e₁ e₂) :
    Twins e₁.catalog e₁ e₂ := by
  have view : e₂.view? = e₁.view? := by
    funext p
    rw [view?_of_absent, view?_of_absent, same.stored?_kept]
    · rw [left.empty]
      rfl
    · rw [right.empty]
      rfl
  refine ⟨left.coherent, right.coherent, ?_, rfl⟩
  rw [same.surface_eq_of_view? view, right.unlocked, ← left.unlocked]
  rfl

end Engine

namespace Database

def session (d : Database) : Session := ⟨d.engine, 0, .empty, .empty⟩

theorem session_twins (d₁ d₂ : Database) (volume : d₁.volume = d₂.volume) (tables : d₁.tables = d₂.tables)
    (pageSize : d₁.settings.pageSize = d₂.settings.pageSize) :
    Session.Twins d₁.engine.catalog d₁.session d₂.session := by
  have same : Engine.SameFiles (.start d₁.settings d₁.volume) (.start d₂.settings d₂.volume) :=
    ⟨pageSize.symm, volume.symm, rfl, rfl⟩
  have opened := Engine.openTables_agrees same d₂.tables
  have done := d₁.done
  rw [tables] at done
  rw [Agrees, outcome, outcome, done, d₂.done] at opened
  have engines := d₁.opened_engine.registered.twins_of_same_files d₂.opened_engine.registered opened.2
  exact ⟨engines, rfl, rfl, rfl, fun id r running => absurd running (by simp [session])⟩

/-- Whatever is done with two databases with the same tables, the replies, the changed pages of every
transaction, the locks and the files are the same after every command, as long as neither of them runs
out of memory. How many pages may be in memory and how many uses are remembered may differ. -/
theorem memory_is_transparent (d₁ d₂ : Database) (volume : d₁.volume = d₂.volume) (tables : d₁.tables = d₂.tables)
    (pageSize : d₁.settings.pageSize = d₂.settings.pageSize) (commands : List Command)
    (room₁ : ∀ moment ∈ d₁.session.trace commands, Reply.fault? moment.reply ≠ some .poolFull)
    (room₂ : ∀ moment ∈ d₂.session.trace commands, Reply.fault? moment.reply ≠ some .poolFull) :
    d₁.session.trace commands = d₂.session.trace commands :=
  Session.trace_eq (session_twins d₁ d₂ volume tables pageSize) commands room₁ room₂

/-- The same table with room for a third page in memory. -/
def roomy : Database :=
  { numbers with
    settings := { pageSize := 16, poolPages := 3, history := 1 }
    engine :=
      { numbers.engine with
        settings := { pageSize := 16, poolPages := 3, history := 1 }
        recency := .new 1 }
    done := rfl }

/-- Numbers for two pages are put in by one transaction and numbers for a third page by another, and a
third one asks for those that are more than 2. -/
def threePages : List Command :=
  [.openPlan "a" (.insert ⟨1⟩ ⟨1⟩ (.rows ⟨[⟨none, .int⟩]⟩ [[.int 1], [.int 2], [.int 3], [.int 4]])),
    .usePlan "a" .start, .usePlan "a" .next, .step (.commit ⟨1⟩),
    .openPlan "a" (.insert ⟨1⟩ ⟨2⟩ (.rows ⟨[⟨none, .int⟩]⟩ [[.int 5], [.int 6], [.int 7]])),
    .usePlan "a" .start, .usePlan "a" .next, .step (.commit ⟨2⟩),
    .openPlan "a" (.filter ⟨0, .gt, .int 2⟩ (.scan ⟨1⟩ ⟨3⟩ none)),
    .usePlan "a" .start, .usePlan "a" (.take 2)]

/-- A page has to go where there is room for two only, and still nothing else differs. -/
theorem numbers_and_roomy : numbers.settings.poolPages < roomy.settings.poolPages ∧
    numbers.session.trace threePages = roomy.session.trace threePages := by
  have room : ∀ s : Session,
      (s.trace threePages).all (fun moment => decide (Reply.fault? moment.reply ≠ some .poolFull)) = true →
      ∀ moment ∈ s.trace threePages, Reply.fault? moment.reply ≠ some .poolFull := by
    intro s all moment among
    exact of_decide_eq_true (List.all_eq_true.mp all moment among)
  refine ⟨by decide, memory_is_transparent numbers roomy rfl rfl rfl threePages (room _ ?_) (room _ ?_)⟩
  · cbv
  · cbv

end Database

end RowStore
