import RowStore.Proofs.Plan.Spans
import RowStore.Proofs.Transparency
/-!
# When memory is full

Whatever is done in a session, a reply says that there is no room in memory only when there is none:
as many pages are in memory as there may be, and each of them is locked or holds changes.
-/

namespace RowStore

open Engine

/-! ### Steps of transactions -/

namespace Engine

variable {c : Catalog} {settings : Settings} {e e' : Engine}

theorem Under.answer_halts {bound : TableId → Nat} {α : Type} {act : Action α} {yields : α → Prop} {answer : α → Answer}
    (under : Under c settings bound e) (honest : Ensures act e (Honest c settings e yields))
    (whole : ∀ a, Answer.fault? (.ok (answer a)) = none) :
    Ensures (act >>= fun a => pure (answer a)) e fun answer e' =>
      Halted c settings bound (Answer.fault? answer = some .poolFull) e' := by
  refine honest.bind ?_ ?_
  · intro a e' done
    apply (under.under_of_onward done.1).halted_of_not_full
    simp [whole]
  · intro fault e' failed
    refine ⟨failed.ready, ?_, fun full => failed.stuck (Option.some.inj full)⟩
    intro table
    exact Nat.le_trans (under.room table) (room_mono under.ready failed.ready failed.pages table)

theorem take_halts (ready : Ready c settings e) (s : FileScan) (count : Nat) :
    Ensures (FileScan.take count) (s, e) fun answer left =>
      Halted c settings e.room (∃ a, answer = .ok a ∧ Short a) left.2 := by
  have each : s.Fetches (e.pagesOf s.file) (fun e₁ => Browsed s.txn e e₁ ∧ Orderly e e₁) fun fault e₁ =>
      fault = .poolFull → e₁.Stuck := by
    intro e₁ number kept _
    obtain ⟨browsed, orderly⟩ := kept
    have gets := (getPage_browses browsed.coherent_after s.txn ⟨s.table, number⟩ .shared).and
      (getPage_tidies s.txn ⟨s.table, number⟩ .shared e₁ orderly.tidy)
    refine gets.mono ?_
    intro answer e₂ gotten
    obtain ⟨gotten, orderly₂⟩ := gotten
    cases answer with
    | ok page => exact ⟨browsed.trans gotten.1, orderly.trans orderly₂⟩
    | error fault =>
      refine ⟨⟨browsed.trans gotten.1, orderly.trans orderly₂⟩, ?_⟩
      intro full
      rcases gotten.2 with interrupted | absent
      · exact interrupted.stuck_of_full full
      · exact absurd (absent.2.symm.trans full) (e₁.missing_ne_poolFull _)
  have long : ∀ e₁, Browsed s.txn e e₁ ∧ Orderly e e₁ → e₁.pagesOf s.file = e.pagesOf s.file :=
    fun _ kept => kept.1.swapped.to_sameFiles.pagesOf_eq s.file
  have taken := FileScan.take_keeps long each ⟨.refl ready.coherent, ready.tidy.refl⟩ ⟨rfl, rfl, rfl⟩ count
  refine taken.mono ?_
  intro answer left kept
  cases answer with
  | error fault => exact kept.elim
  | ok answer =>
    obtain ⟨-, ⟨browsed, orderly⟩, stuck⟩ := kept
    have under := ready.under_room.under_of_onward (ready.onward_of_browsed browsed orderly)
    refine ⟨under.ready, under.room, ?_⟩
    intro full
    obtain ⟨a, same, short⟩ := full
    cases same
    exact stuck _ short rfl

theorem Ready.halted_of_same_pages (ready : Ready c settings e) {full : Prop} (coherent : e'.Coherent)
    (orderly : Orderly e e')
    (catalog : e'.catalog = e.catalog) (pages : ∀ table, e'.pagesIn table = e.pagesIn table) (other : ¬full) :
    Halted c settings e.room full e' := by
  have ready' : Ready c settings e' :=
    ⟨coherent, orderly.tidy, catalog.trans ready.catalog, orderly.settings.trans ready.settings⟩
  refine ⟨ready', ?_, fun full => absurd full other⟩
  intro table
  exact room_mono ready ready' (fun table => Nat.le_of_eq (pages table).symm) table

theorem commit_halts (ready : Ready c settings e) (txn : TxnId) :
    Ensures (commit txn) e fun answer e' => answer = .ok () ∧ Halted c settings e.room False e' := by
  refine ((commit_ensures ready.coherent txn).and (commit_tidies txn e ready.tidy)).mono ?_
  intro answer e' both
  obtain ⟨committed, orderly⟩ := both
  cases answer with
  | error fault => exact committed.elim
  | ok _ =>
    refine ⟨rfl, ready.halted_of_same_pages committed.coherent orderly committed.tables.catalog ?_ not_false⟩
    intro table
    have files := congrArg (Option.map TableFile.pages) (committed.files table)
    rw [Option.map_map, Option.map_map] at files
    rw [pagesIn, pagesIn]
    cases before : e.fileOf? table <;> cases after : e'.fileOf? table <;> simp [before, after] at files ⊢
    exact files

theorem abort_halts (ready : Ready c settings e) (txn : TxnId) :
    Ensures (abort txn) e fun answer e' => answer = .ok () ∧ Halted c settings e.room False e' := by
  refine ((abort_ensures ready.coherent txn).and (abort_tidies txn e ready.tidy)).mono ?_
  intro answer e' both
  obtain ⟨aborted, orderly⟩ := both
  cases answer with
  | error fault => exact aborted.elim
  | ok _ =>
    exact ⟨rfl, ready.halted_of_same_pages aborted.coherent orderly aborted.files.catalog aborted.files.pagesIn_eq
      not_false⟩

end Engine

variable {c : Catalog} {settings : Settings} {e : Engine}

theorem Op.act_halts (ready : Ready c settings e) (op : Op) :
    Ensures op.act e fun answer e' => Halted c settings e.room (Answer.fault? answer = some .poolFull) e' := by
  cases op with
  | insert txn table schema values =>
    refine (ready.ofExcept_honest (Row.build_memoryless schema values)).bind ?_ ?_
    · intro row e₁ built
      obtain ⟨onward, built⟩ := built
      have fits := (Row.conforms_of_build built).fits_own_schema
      have under := ready.under_room.under_of_onward onward
      exact under.answer_halts (insert_honest under.ready txn table row fits) fun _ => rfl
    · intro fault e₁ failed
      refine ⟨failed.ready, ?_, fun full => failed.stuck (Option.some.inj full)⟩
      exact fun table => room_mono ready failed.ready failed.pages table
  | delete txn row => exact ready.under_room.answer_halts (delete_honest ready txn row) fun _ => rfl
  | read txn page mode => exact ready.under_room.answer_halts (getPage_honest ready txn page mode) fun _ => rfl
  | scan s count =>
    refine FileScan.draw_ensures ((take_halts ready s count).and (FileScan.take_succeeds count (s, e))) ?_ ?_
    · rintro answer left ⟨halted, -⟩
      exact ⟨halted.ready, halted.room, fun full => halted.stuck ⟨answer, rfl, full⟩⟩
    · rintro fault left ⟨-, a, answered⟩
      exact absurd answered (by simp)
  | commit txn =>
    refine (commit_halts ready txn).bind ?_ fun _ _ failed => absurd failed.1 (by simp)
    intro _ e₁ done
    exact ⟨done.2.ready, done.2.room, fun full => absurd full (by simp [Answer.fault?])⟩
  | abort txn =>
    refine (abort_halts ready txn).bind ?_ fun _ _ failed => absurd failed.1 (by simp)
    intro _ e₁ done
    exact ⟨done.2.ready, done.2.room, fun full => absurd full (by simp [Answer.fault?])⟩

/-! ### Uses of plans -/

theorem Ensures.reply_halts {σ α : Type} {good : σ → Prop} {yields : α → σ → Prop} {bound : TableId → Nat} {s : σ}
    {act : Step σ α} {reply : α → Reply} (fair : Ensures act (s, e) (Fair c settings bound good yields))
    (whole : ∀ a, Reply.fault? (.ok (reply a)) = none) :
    Ensures (act >>= fun a => Pure.pure (reply a)) (s, e) fun answer left =>
      good left.1 ∧ Halted c settings bound (Reply.fault? answer = some .poolFull) left.2 := by
  refine fair.bind ?_ ?_
  · intro a left done
    refine ⟨done.1, done.2.1.halted_of_not_full ?_⟩
    simp [whole]
  · intro fault left failed
    exact ⟨failed.1, failed.2.ready, failed.2.room, fun full => failed.2.stuck (Option.some.inj full)⟩

theorem Use.act_halts {source : Source} {types : List ColType} {gauge : source.Gauge}
    (lasts : source.Lasts c settings types gauge) {bound : TableId → Nat} {cur : Cursor source}
    (fit : cur.Fit types gauge False bound) (under : Under c settings bound e) (use : Use) :
    Ensures use.act (cur, e) fun answer left => left.1.Fit types gauge False bound ∧
      Halted c settings bound (Reply.fault? answer = some .poolFull) left.2 := by
  cases use with
  | start => exact (Cursor.start_fair lasts fit under).reply_halts fun _ => rfl
  | close => exact ⟨fit.fit_close lasts, under.halted_of_not_full (by simp [Reply.fault?])⟩
  | rewind => exact (Cursor.rewind_fair lasts fit under).reply_halts fun _ => rfl
  | hasNext => exact (Cursor.hasNext_fair lasts fit under not_false).reply_halts fun _ => rfl
  | next => exact (Cursor.next_fair lasts fit under).reply_halts fun _ => rfl
  | fetch => exact (Cursor.fetch_fair lasts fit under).reply_halts fun _ => rfl
  | take count =>
    have taken := (Cursor.take_succeeds count (cur, e)).and (Cursor.take_fair lasts fit under count)
    refine taken.bind ?_ fun _ _ failed => absurd failed.1 (by simp)
    intro a left done
    obtain ⟨-, fit', halted⟩ := done
    exact ⟨fit', halted.ready, halted.room, fun full => halted.stuck ⟨a, rfl, full⟩⟩
  | collect => exact (Cursor.collect_fair lasts fit under).reply_halts fun _ => rfl

/-! ### Sessions -/

/-- No memory is needed to make a plan of a query. -/
theorem Plan.ofQuery_memoryless (c : Catalog) (query : Query) : Memoryless (ofQuery c query) := by
  have resolves : ∀ table, Memoryless (resolveIn c table) := by
    intro table
    rw [resolveIn]
    split <;> simp [Memoryless]
  induction query with
  | rows schema lists => exact (Memoryless.memoryless_mapM (Row.build_memoryless schema) lists).bind fun _ => .pure _
  | scan table txn owner => exact (resolves table).bind fun _ => .pure _
  | filter condition child ih => exact ih.bind fun _ => .pure _
  | join condition left right ih ih' => exact ih.bind fun _ => ih'.bind fun _ => .pure _
  | aggregate groupBy field summary child ih =>
    refine ih.bind fun plan => Memoryless.bind ?_ fun _ => .pure _
    simp only [Grouping.new]
    repeat' split
    all_goals simp [Memoryless]
  | insert table txn child ih =>
    refine ih.bind fun plan => (resolves table).bind fun entry => ?_
    split
    · exact .pure _
    · simp [Memoryless, throw, throwThe, MonadExceptOf.throw]
  | delete txn child ih => exact ih.bind fun _ => .pure _

/-- The plan comes to an end while files keep to the bound. -/
def RunningPlan.Lasts (c : Catalog) (settings : Settings) (bound : TableId → Nat) (r : RunningPlan) : Prop :=
  ∃ gauge, r.plan.source.Lasts c settings r.plan.schema.types gauge ∧
    r.cursor.Fit r.plan.schema.types gauge False bound

theorem RunningPlan.Lasts.lasts_of_le {bound bound' : TableId → Nat} {r : RunningPlan}
    (running : r.Lasts c settings bound)
    (wider : ∀ table, bound table ≤ bound' table) : r.Lasts c settings bound' := by
  obtain ⟨gauge, lasts, fit⟩ := running
  exact ⟨gauge, lasts, fit.fit_of_le lasts wider⟩

namespace Session

/-- Memory is as it should be, and every plan comes to an end. -/
structure Steady (c : Catalog) (settings : Settings) (s : Session) : Prop where
  ready : Ready c settings s.engine
  running : ∀ id r, s.plans.get? id = some r → r.Lasts c settings s.engine.room

/-- What a command leaves, when there is no room in memory if it says so. -/
structure Settled (c : Catalog) (settings : Settings) (full : Prop) (s : Session) : Prop where
  steady : Steady c settings s
  stuck : full → s.engine.Stuck

variable {s : Session} {α : Type}

/-- What has been done with the engine lets plans go on as they did. -/
theorem Settled.of_halted {s' : Session} {full : Prop} (halted : Halted c settings s.engine.room full s'.engine)
    (plans : ∀ id r, s'.plans.get? id = some r → r.Lasts c settings s.engine.room) : Settled c settings full s' :=
  ⟨⟨halted.ready, fun id r running => (plans id r running).lasts_of_le halted.room⟩, halted.stuck⟩

theorem Settled.mono {full full' : Prop} (settled : Settled c settings full s) (weaker : full' → full) :
    Settled c settings full' s := ⟨settled.steady, fun full => settled.stuck (weaker full)⟩

variable (steady : Steady c settings s)

include steady

theorem Steady.settled_of_not_full {full : Prop} (other : ¬full) : Settled c settings full s :=
  ⟨steady, fun full => absurd full other⟩

theorem engineAct_halts {act : Action α} {full : Except Fault α → Prop}
    (halts : Ensures act s.engine fun answer e => Halted c settings s.engine.room (full answer) e) :
    Ensures (engineAct act) s fun answer s' => Settled c settings (full answer) s' :=
  engineAct_ensures (halts.mono fun _ _ halted => .of_halted halted steady.running)

theorem openScan_halts (id : String) (txn : TxnId) (table : TableId) :
    Ensures (openScan id txn table) s fun answer s' => Settled c settings (answer = .error .poolFull) s' := by
  have resolved : Ensures (resolve table) s.engine fun answer e =>
      Halted c settings s.engine.room (answer = .error .poolFull) e := by
    refine (resolve_ensures table).mono ?_
    intro answer e' found
    cases answer with
    | ok entry =>
      rw [found.1]
      exact steady.ready.under_room.halted_of_not_full (by simp)
    | error fault =>
      rw [found.1, found.2.1]
      exact steady.ready.under_room.halted_of_not_full (by simp)
  refine (engineAct_halts steady resolved).bind ?_ ?_
  · intro entry s' found
    exact ⟨⟨found.steady.ready, found.steady.running⟩, fun full => absurd full (by simp)⟩
  · intro fault s' failed
    exact failed.mono fun full => congrArg Except.error (Except.error.inj full)

theorem onScan_halts (id : String) {act : Step FileScan α} {full : Except Fault (Option α) → Prop}
    (nothing : ¬full (.ok none))
    (halts : ∀ scan, Ensures act (scan, s.engine) fun answer left =>
      Halted c settings s.engine.room (full (answer.map some)) left.2) :
    Ensures (onScan id act) s fun answer s' => Settled c settings (full answer) s' :=
  onScan_ensures (fun _ => steady.settled_of_not_full nothing)
    fun scan _ => (halts scan).mono fun _ _ halted => .of_halted halted steady.running

/-- A plan that has been used comes to an end as before, and so does every other. -/
theorem onPlan_halts (id : String) {act : {source : Source} → Step (Cursor source) α}
    {full : Except Fault (Option α) → Prop} (nothing : ¬full (.ok none))
    (halts : ∀ {source : Source} {types : List ColType} {gauge : source.Gauge},
      source.Lasts c settings types gauge → ∀ {cur : Cursor source}, cur.Fit types gauge False s.engine.room →
        Ensures act (cur, s.engine) fun answer left => left.1.Fit types gauge False s.engine.room ∧
          Halted c settings s.engine.room (full (answer.map some)) left.2) :
    Ensures (onPlan id act) s fun answer s' => Settled c settings (full answer) s' := by
  refine onPlan_ensures (fun _ => steady.settled_of_not_full nothing) fun plan cursor known => ?_
  obtain ⟨gauge, lasts, fit⟩ := steady.running id _ known
  refine (halts lasts fit).mono ?_
  rintro answer left ⟨fit', halted⟩
  refine .of_halted halted fun other r running => ?_
  rw [FinMap.get?_insert] at running
  split at running
  · cases running
    exact ⟨gauge, lasts, fit'⟩
  · exact steady.running other r running

theorem openPlan_halts (id : String) (query : Query) :
    Ensures (openPlan id query) s fun answer s' => Settled c settings (answer = .error .poolFull) s' := by
  rw [Ensures, openPlan]
  cases made : Plan.ofQuery s.engine.catalog query with
  | error fault =>
    apply steady.settled_of_not_full
    intro full
    cases full
    exact Plan.ofQuery_memoryless s.engine.catalog query made
  | ok plan =>
    have sound := Plan.sound_of_ofQuery query made
    rw [steady.ready.catalog] at sound
    obtain ⟨gauge, lasts⟩ := sound.exists_lasts settings
    refine ⟨⟨steady.ready, ?_⟩, fun full => absurd full (by simp)⟩
    intro other r running
    rw [FinMap.get?_insert] at running
    split at running
    · cases running
      exact ⟨gauge, lasts, Cursor.fit_new lasts _⟩
    · exact steady.running other r running

/-- A reply that says that there is no room in memory is right. -/
theorem run_halts (command : Command) :
    Ensures command.run s fun reply s' => Settled c settings (Reply.fault? reply = some .poolFull) s' := by
  have under := steady.ready.under_room
  cases command with
  | begin => exact ⟨⟨steady.ready, steady.running⟩, fun full => absurd full (by simp [Reply.fault?])⟩
  | step op =>
    exact (engineAct_halts steady (Op.act_halts steady.ready op)).bind (fun _ _ settled => settled)
      fun _ _ settled => settled
  | openScan id txn table =>
    refine (openScan_halts steady id txn table).bind ?_ ?_
    · intro _ s' settled
      exact settled.mono (by simp [Reply.fault?])
    · intro fault s' settled
      exact settled.mono fun full => congrArg Except.error (Option.some.inj full)
  | drawScan id count =>
    let reply (drawn : Option (List (Option Row) × Option Fault)) : Reply :=
      drawn.elim .done fun taken => .rows taken.1 taken.2
    have drawn : Ensures (onScan id (FileScan.take count)) s fun answer s' =>
        Settled c settings (Reply.fault? (answer.map reply) = some .poolFull) s' := by
      apply onScan_halts steady id (by simp [Except.map, reply, Reply.fault?])
      intro scan
      refine ((FileScan.take_succeeds count (scan, s.engine)).and (take_halts steady.ready scan count)).mono ?_
      intro answer left done
      obtain ⟨⟨a, rfl⟩, halted⟩ := done
      exact ⟨halted.ready, halted.room, fun full => halted.stuck ⟨a, rfl, full⟩⟩
    exact drawn.bind (fun _ _ settled => settled) fun _ _ settled => settled
  | rewindScan id =>
    have rewound : Ensures (onScan id (Step.update FileScan.rewind)) s fun answer s' =>
        Settled c settings (answer = .error .poolFull) s' := by
      apply onScan_halts steady id (by simp)
      intro scan
      exact under.halted_of_not_full (by simp [Except.map])
    refine rewound.bind ?_ ?_
    · intro _ s' settled
      exact settled.mono (by simp [Reply.fault?])
    · intro fault s' settled
      exact settled.mono fun full => congrArg Except.error (Option.some.inj full)
  | openPlan id query =>
    refine (openPlan_halts steady id query).bind ?_ ?_
    · intro plan s' settled
      exact settled.mono (by simp [Reply.fault?])
    · intro fault s' settled
      exact settled.mono fun full => congrArg Except.error (Option.some.inj full)
  | usePlan id use =>
    have used : Ensures (onPlan id use.act) s fun answer s' =>
        Settled c settings (Reply.fault? (answer.map (·.getD .done)) = some .poolFull) s' := by
      apply onPlan_halts steady id (by simp [Except.map, Reply.fault?])
      intro source types gauge lasts cur fit
      refine (Use.act_halts lasts fit under use).mono ?_
      intro answer left done
      obtain ⟨fit', halted⟩ := done
      refine ⟨fit', halted.ready, halted.room, fun full => halted.stuck ?_⟩
      cases answer <;> exact full
    exact used.bind (fun _ _ settled => settled) fun _ _ settled => settled

omit steady in
def after (s : Session) (commands : List Command) : Session :=
  commands.foldl (fun s command => (outcome command.run s).2) s

theorem Steady.steady_after (commands : List Command) : Steady c settings (s.after commands) := by
  induction commands generalizing s with
  | nil => exact steady
  | cons command rest ih => exact ih (run_halts steady command).outcome.steady

end Session

/-! ### Opening tables -/

namespace Engine

theorem openTables_tidies (tables : List TableSpec) : Tidies (openTables tables) := by
  induction tables with
  | nil => exact .pure []
  | cons t rest ih => exact (createTable_tidies t.path t.schema t.name).bind fun _ => ih.bind fun _ => .pure _

end Engine

end RowStore
