import Mathlib.Data.List.Infix
import RowStore.Proofs.Plan.Answers
import RowStore.Proofs.Shortage
/-!
# What a plan is told to answer

Whatever is done in a session meanwhile, as long as the tables that a plan reads have the same rows and it is
not refused any, what is answered to those who use it depends on the rows that it means and on nothing else:
the rows come one after another, looking for the next one takes none away, and starting it anew or going back
brings all of them again. It is refused a row for two reasons only: there is no room in memory, or another
transaction is writing to one of its tables.
-/

namespace RowStore

open Engine

/-! ### Uses -/

/-- What is answered when the plan means these rows, and what is left of them; nothing is left of a plan that
is not open. To go back is to start anew, unless the plan `replays` its rows and has to be open. Fetching
passes by the row that was looked at, and nothing is said of it. -/
def Use.told (rows : List Row) (replays : Bool) : Use → Option (List Row) → Except Fault Reply × Option (List Row)
  | .start, _ => (.ok .done, some rows)
  | .close, _ => (.ok .done, none)
  | .rewind, some _ => (.ok .done, some rows)
  | .rewind, none => if replays then (.error .notOpen, none) else (.ok .done, some rows)
  | .hasNext, some rest => (.ok (.more !rest.isEmpty), some rest)
  | .hasNext, none => (.error .notOpen, none)
  | .next, some [] => (.error .noMoreRows, some [])
  | .next, some (row :: rest) => (.ok (.row (some row)), some rest)
  | .next, none => (.error .notOpen, none)
  | .fetch, place => (.ok .done, place)
  | .take count, some rest =>
    (.ok (.rows ((rest.take count).map some) (if count ≤ rest.length then none else some .noMoreRows)),
      some (rest.drop count))
  | .take count, none => (.ok (.rows [] (if count = 0 then none else some .notOpen)), none)
  | .collect, some rest => (.ok (.rows (rest.map some) none), some [])
  | .collect, none => (.error .notOpen, none)

def Use.tellings (rows : List Row) (replays : Bool) : Option (List Row) → List Use → List (Except Fault Reply)
  | _, [] => []
  | place, use :: rest =>
    let (reply, place) := use.told rows replays place
    reply :: tellings rows replays place rest

def Reply.isRefusal (reply : Except Fault Reply) : Bool :=
  (Reply.fault? reply).any fun
    | .poolFull => true
    | .aborted _ => true
    | _ => false

namespace Use

/-- A row is asked for once at most. -/
def isCall : Use → Bool
  | .start => true
  | .close => true
  | .rewind => true
  | .hasNext => true
  | .next => true
  | _ => false

/-- The use is only to see whether there is a row. -/
def looks : Use → Bool
  | .hasNext => true
  | _ => false

variable (rows : List Row) (replays : Bool)

/-- All rows come in order, and from then on there are no more. -/
theorem tellings_next (rest : List Row) (count : Nat) :
    tellings rows replays (some rest) (List.replicate count .next) =
      (List.range count).map fun i => rest[i]?.elim (.error .noMoreRows) fun row => .ok (.row (some row)) := by
  induction count generalizing rest with
  | zero => rfl
  | succ count ih =>
    rw [List.replicate_succ, tellings, List.range_succ_eq_map, List.map_cons, List.map_map]
    cases rest with
    | nil => exact congrArg _ (ih [])
    | cons row later => exact congrArg _ (ih later)

/-- To look whether there is a row changes no other reply. -/
theorem tellings_of_not_looks (place : Option (List Row)) (uses : List Use) :
    ((uses.zip (tellings rows replays place uses)).filter fun answered => !answered.1.looks).map Prod.snd =
      tellings rows replays place (uses.filter fun use => !use.looks) := by
  induction uses generalizing place with
  | nil => rfl
  | cons use rest ih =>
    rw [tellings, List.zip_cons_cons]
    cases looking : use.looks with
    | false =>
      rw [List.filter_cons_of_pos (by simp [looking]), List.filter_cons_of_pos (by simp [looking]), List.map_cons, ih]
      rfl
    | true =>
      have stays : (use.told rows replays place).2 = place := by
        cases use with
        | hasNext => cases place <;> rfl
        | _ => exact absurd looking (by simp [looks])
      rw [List.filter_cons_of_neg (by simp [looking]), List.filter_cons_of_neg (by simp [looking]), stays, ih]

end Use

namespace Cursor

variable {source : Source} {shows : Engine → Prop} {refusal : Fault → Engine → Prop} {sure : Prop}
  {rows rest : List Row} {still : List Row → source.State → Prop} {kept kept' : Cursor source → Prop}
  {cur : Cursor source} {e : Engine} {α : Type}

/-- The cursor is closed, or the rows are still to come from it. -/
def Stands (still : List Row → source.State → Prop) : Option (List Row) → Cursor source → Prop
  | none, cur => cur.isOpen = false
  | some rest, cur => cur.Awaits still rest

/-- A use is answered as was told, unless it is refused, and then it is known what has become of the cursor. -/
def Heeds (shows : Engine → Prop) (refusal : Fault → Engine → Prop) (still : List Row → source.State → Prop)
    (kept : Cursor source → Prop) (told : Except Fault Reply × Option (List Row)) (reply : Except Fault Reply)
    (after : Cursor source × Engine) : Prop :=
  shows after.2 ∧ (reply = told.1 ∧ after.1.Stands still told.2 ∨
    ∃ fault, Reply.fault? reply = some fault ∧ refusal fault after.2 ∧ kept after.1)

theorem Heeds.keeps_mono {told : Except Fault Reply × Option (List Row)} {reply : Except Fault Reply}
    {after : Cursor source × Engine} (keeps : ∀ cur', kept cur' → kept' cur')
    (heeds : Heeds shows refusal still kept told reply after) : Heeds shows refusal still kept' told reply after :=
  heeds.imp_right (.imp_right fun ⟨fault, reported, refused, stays⟩ => ⟨fault, reported, refused, keeps _ stays⟩)

theorem heeds_of_plain (place : Option (List Row)) {act : Step (Cursor source) α} {said : Except Fault α}
    (plain : Ensures act (cur, e) (Plain shows refusal sure said (Stands still place) kept')) (reply : α → Reply)
    (keeps : ∀ cur', (sure → kept' cur') → kept cur') :
    Ensures (act >>= fun a => pure (reply a)) (cur, e) (Heeds shows refusal still kept (said.map reply, place)) := by
  refine plain.bind ?_ ?_
  · rintro a after ⟨shown, ⟨rfl, stands⟩ | ⟨⟨_, other, -⟩, -⟩⟩
    · exact ⟨shown, .inl ⟨rfl, stands⟩⟩
    · exact absurd other (by simp)
  · rintro fault after ⟨shown, ⟨rfl, stands⟩ | ⟨⟨_, same, refusal⟩, stays⟩⟩
    · exact ⟨shown, .inl ⟨rfl, stands⟩⟩
    · cases same
      exact ⟨shown, .inr ⟨fault, rfl, refusal, keeps _ stays⟩⟩

theorem pull_of_closed (closed : cur.isOpen = false) : pull (cur, e) = .error .notOpen (cur, e) :=
  Step.bind_of_error (checkOpen_of_closed closed)

theorem heeds_of_closed {use : Use} (closed : cur.isOpen = false) (shown : shows e)
    (refused : use.act (cur, e) = .error .notOpen (cur, e)) :
    Ensures use.act (cur, e) (Heeds shows refusal still kept (.error .notOpen, none)) := by
  rw [Ensures, refused]
  exact ⟨shown, .inl ⟨rfl, closed⟩⟩

section

variable (answers : source.Answers shows refusal sure rows still) {place : Option (List Row)}
  (stands : cur.Stands still place) (shown : shows e)

include answers stands shown

omit stands in
theorem start_heeds : Ensures Use.start.act (cur, e) (Heeds shows refusal still
    (fun cur' => sure → cur'.Stands still place) (Use.start.told rows source.replay.isSome place)) := by
  have started : Ensures start (cur, e) (Plain shows refusal sure (.ok ()) (Stands still (some rows)) fun _ => False) :=
    (start_plain answers shown cur).plain_mono (fun _ draws => draws.to_awaits) fun _ => id
  exact heeds_of_plain (some rows) started (fun _ => .done) fun _ never sure => (never sure).elim

theorem rewind_heeds : Ensures Use.rewind.act (cur, e) (Heeds shows refusal still
    (fun cur' => sure → cur'.Stands still place) (Use.rewind.told rows source.replay.isSome place)) := by
  cases place with
  | some rest =>
    have rewound : Ensures rewind (cur, e)
        (Plain shows refusal sure (.ok ()) (Stands still (some rows)) fun _ => False) :=
      (rewind_plain answers shown stands).plain_mono (fun _ draws => draws.to_awaits) fun _ => id
    exact heeds_of_plain (some rows) rewound (fun _ => .done) fun _ never sure => (never sure).elim
  | none =>
    cases replay : source.replay with
    | none =>
      have started : rewind (cur, e) = start (cur.close, e) := by
        rw [rewind, replay]
        rfl
      have again : Ensures rewind (cur, e)
          (Plain shows refusal sure (.ok ()) (Stands still (some rows)) fun _ => False) :=
        .congr started ((start_plain answers shown cur.close).plain_mono (fun _ draws => draws.to_awaits) fun _ => id)
      exact heeds_of_plain (some rows) again (fun _ => .done) fun _ never sure => (never sure).elim
    | some again =>
      have refused : rewind (cur, e) = .error .notOpen (cur, e) := by
        rw [rewind, replay]
        exact Step.bind_of_error (checkOpen_of_closed stands)
      exact heeds_of_closed stands shown (Step.bind_of_error refused)

theorem take_heeds (count : Nat) : Ensures (Use.take count).act (cur, e) (Heeds shows refusal still
    (fun _ => True) ((Use.take count).told rows source.replay.isSome place)) := by
  cases place with
  | some rest =>
    refine (take_plain answers count shown stands).bind ?_ ?_
    · rintro _ after ⟨shown', ⟨⟨⟩, awaits⟩ | ⟨given, fault, ⟨⟩, refusal⟩⟩
      · exact ⟨shown', .inl ⟨rfl, awaits⟩⟩
      · exact ⟨shown', .inr ⟨fault, rfl, refusal, trivial⟩⟩
    · rintro fault after ⟨-, ⟨other, -⟩ | ⟨_, _, other, -⟩⟩ <;> exact absurd other (by simp)
  | none =>
    cases count with
    | zero => exact ⟨shown, .inl ⟨rfl, stands⟩⟩
    | succ count =>
      have refused : next (cur, e) = .error .notOpen (cur, e) := Step.bind_of_error (pull_of_closed stands)
      have taken : take (count + 1) (cur, e) = .ok ([], some .notOpen) (cur, e) := by
        show EStateM.bind (attempt next) _ (cur, e) = _
        rw [EStateM.bind, attempt, refused]
        rfl
      have used : (Use.take (count + 1)).act (cur, e) = .ok (.rows [] (some .notOpen)) (cur, e) := by
        show EStateM.bind (take (count + 1)) _ (cur, e) = _
        rw [EStateM.bind, taken]
        rfl
      rw [Ensures, used]
      exact ⟨shown, .inl ⟨rfl, stands⟩⟩

end

/-- Where the source is sure to start, a call that was refused has left the cursor where it was. -/
theorem act_heeds (answers : source.Answers shows refusal sure rows still) (use : Use) (told : use ≠ .fetch)
    {place : Option (List Row)} (stands : cur.Stands still place) (shown : shows e) :
    Ensures use.act (cur, e) (Heeds shows refusal still (fun cur' => sure → use.isCall = true → cur'.Stands still place)
      (use.told rows source.replay.isSome place)) := by
  cases use with
  | start => exact (start_heeds answers shown).mono fun _ _ => .keeps_mono fun _ stays sure _ => stays sure
  | close => exact ⟨shown, .inl ⟨rfl, rfl⟩⟩
  | rewind => exact (rewind_heeds answers stands shown).mono fun _ _ => .keeps_mono fun _ stays sure _ => stays sure
  | hasNext =>
    cases place with
    | some rest =>
      exact heeds_of_plain (some rest) (hasNext_plain answers shown stands) .more fun _ stays sure _ => stays sure
    | none => exact heeds_of_closed stands shown (Step.bind_of_error (Step.bind_of_error (pull_of_closed stands)))
  | next =>
    cases place with
    | some rest =>
      have keeps : ∀ cur' : Cursor source, (sure → cur'.Awaits still rest) →
          sure → Use.next.isCall = true → cur'.Stands still (some rest) := fun _ stays sure _ => stays sure
      have given := heeds_of_plain (some rest.tail) (next_plain answers shown stands) (fun row => .row (some row)) keeps
      cases rest <;> exact given
    | none => exact heeds_of_closed stands shown (Step.bind_of_error (Step.bind_of_error (pull_of_closed stands)))
  | fetch => exact absurd rfl told
  | take count =>
    exact (take_heeds answers stands shown count).mono fun _ _ => .keeps_mono fun _ _ _ call =>
      absurd call (by simp [Use.isCall])
  | collect =>
    cases place with
    | some rest =>
      exact heeds_of_plain (some []) (collect_plain answers shown stands) (fun rows => .rows (rows.map some) none)
        fun _ _ _ call => absurd call (by simp [Use.isCall])
    | none =>
      have drained : collect (cur, e) = .error .notOpen (cur, e) := by
        show (drain (fun rows row => pure (row :: rows)) (source.limit e + 2) [] >>=
          fun rows => pure rows.reverse) (cur, e) = _
        exact Step.bind_of_error (Step.bind_of_error (pull_of_closed stands))
      exact heeds_of_closed stands shown (Step.bind_of_error drained)

end Cursor

/-! ### Sessions -/

/-- The plan gives again rows that it has kept. -/
def Plan.replays : Plan → Bool
  | .aggregate _ _ => true
  | _ => false

theorem Plan.isSome_replay (plan : Plan) : plan.source.replay.isSome = plan.replays := by
  cases plan <;> rfl

/-- The command leaves it to others to name a plan so, and does not pass by a row that was looked at. -/
def Command.spares (id : String) : Command → Bool
  | .openPlan other _ => decide (other ≠ id)
  | .usePlan other .fetch => decide (other ≠ id)
  | _ => true

/-- What the command does with the plan of that name. -/
def Command.useOf? (id : String) : Command → Option Use
  | .usePlan other use => if other = id then some use else none
  | _ => none

/-- There is no room in memory, or another transaction is writing to a table among those. -/
inductive Engine.Refuses (among : List TableId) (e : Engine) : Fault → Prop
  | full : e.Stuck → Refuses among e .poolFull
  | barred {txn table} : table ∈ among → e.Barred table txn → Refuses among e (.aborted txn)

theorem Refusal.refuses_of_stuck {among : List TableId} {fault : Fault} {e : Engine} (refusal : Refusal among fault e)
    (stuck : fault = .poolFull → e.Stuck) : e.Refuses among fault := by
  obtain rfl | ⟨txn, rfl, table, here, barred⟩ := refusal
  · exact .full (stuck rfl)
  · exact .barred here barred

namespace Session

def replies (s : Session) (id : String) : List Command → List (Except Fault Reply)
  | [] => []
  | command :: rest =>
    let (reply, s') := outcome command.run s
    if (command.useOf? id).isSome then reply :: s'.replies id rest else s'.replies id rest

theorem replies_usePlan (s : Session) (id : String) (use : Use) (rest : List Command) :
    s.replies id (.usePlan id use :: rest) =
      (outcome (Command.usePlan id use).run s).1 :: (outcome (Command.usePlan id use).run s).2.replies id rest := by
  simp [replies, Command.useOf?]

/-- Something that is done with the plan of that name is refused, and for a reason. -/
def Refuses (s : Session) (id : String) (among : List TableId) : List Command → Prop
  | [] => False
  | command :: rest =>
    let (reply, s') := outcome command.run s
    ((command.useOf? id).isSome ∧ ∃ fault, Reply.fault? reply = some fault ∧ s'.engine.Refuses among fault) ∨
      s'.Refuses id among rest

theorem not_refuses_of_replies {s : Session} {id : String} {among : List TableId} {commands : List Command}
    (granted : ∀ reply ∈ s.replies id commands, Reply.isRefusal reply = false) : ¬s.Refuses id among commands := by
  induction commands generalizing s with
  | nil => exact not_false
  | cons command rest ih =>
    intro refused
    simp only [replies, Refuses] at granted refused
    obtain ⟨uses, fault, reported, refuses⟩ | later := refused
    · rw [if_pos uses] at granted
      have free := granted _ List.mem_cons_self
      rw [Reply.isRefusal, reported] at free
      cases refuses <;> exact absurd free (by simp)
    · refine ih (fun reply among => granted reply ?_) later
      split
      · exact List.mem_cons_of_mem _ among
      · exact among

variable {c : Catalog} {settings : Settings} {s : Session} {id : String} {plan : Plan}
  {still : List Row → plan.source.State → Prop} {place : Option (List Row)} {contents : TableId → List Row}
  {among : List TableId} {rows : List Row} {sure : Prop}

/-- The plan of that name has been drawn from up to that place. -/
def Drawn (id : String) (plan : Plan) (still : List Row → plan.source.State → Prop) (place : Option (List Row))
    (s : Session) : Prop :=
  ∃ cursor, s.plans.get? id = some ⟨plan, cursor⟩ ∧ cursor.Stands still place

theorem engineAct_plans {α : Type} (act : Action α) : Ensures (engineAct act) s fun _ s' => s'.plans = s.plans :=
  engineAct_ensures (.of_forall fun _ _ => rfl)

theorem onScan_plans {α : Type} (other : String) (act : Step FileScan α) :
    Ensures (onScan other act) s fun _ s' => s'.plans = s.plans :=
  onScan_ensures (fun _ => rfl) fun _ _ => .of_forall fun _ _ => rfl

theorem onPlan_plans {α : Type} {other : String} (differs : other ≠ id)
    (act : {source : Source} → Step (Cursor source) α) :
    Ensures (onPlan other act) s fun _ s' => s'.plans.get? id = s.plans.get? id :=
  onPlan_ensures (fun _ => rfl) fun _ _ _ =>
    .of_forall fun _ _ => FinMap.get?_insert_of_ne _ _ _ _ (Ne.symm differs)

theorem after_openPlan {query : Query} (made : Plan.ofQuery s.engine.catalog query = .ok plan) :
    s.after [.openPlan id query] = { s with plans := s.plans.insert id ⟨plan, .new plan.source⟩ } := by
  have opened : (Command.openPlan id query).run s = .ok (.schema plan.schema)
      { s with plans := s.plans.insert id ⟨plan, .new plan.source⟩ } := by
    show EStateM.bind (openPlan id query) _ s = _
    rw [EStateM.bind, openPlan, made]
    rfl
  rw [Session.after, List.foldl_cons, List.foldl_nil, outcome, opened]

theorem drawn_of_opened {query : Query} (still : List Row → plan.source.State → Prop)
    (made : Plan.ofQuery s.engine.catalog query = .ok plan) :
    Drawn id plan still none (s.after [.openPlan id query]) := by
  rw [after_openPlan made]
  exact ⟨.new plan.source, FinMap.get?_insert_self .., rfl⟩

theorem run_usePlan {cursor : Cursor plan.source} (here : s.plans.get? id = some ⟨plan, cursor⟩) {use : Use}
    {post : Except Fault Reply → Cursor plan.source × Engine → Prop} (used : Ensures use.act (cursor, s.engine) post) :
    Ensures (Command.usePlan id use).run s fun reply s' =>
      ∃ cursor', s'.plans.get? id = some ⟨plan, cursor'⟩ ∧ post reply (cursor', s'.engine) := by
  have done : Ensures (onPlan id use.act) s fun answer s' =>
      ∃ cursor', s'.plans.get? id = some ⟨plan, cursor'⟩ ∧ post (answer.map (·.getD .done)) (cursor', s'.engine) := by
    refine onPlan_ensures (fun absent => absurd (here.symm.trans absent) (by simp)) ?_
    intro _ _ known
    cases here.symm.trans known
    refine used.mono ?_
    rintro (fault | reply) left came
    · exact ⟨_, FinMap.get?_insert_self .., came⟩
    · exact ⟨_, FinMap.get?_insert_self .., came⟩
  exact done.bind (fun _ _ came => came) fun _ _ came => came

theorem run_plans {command : Command} (spares : command.spares id = true) (other : command.useOf? id = none) :
    Ensures command.run s fun _ s' => s'.plans.get? id = s.plans.get? id := by
  have same : ∀ {α : Type} {act : Request α} {reply : α → Reply}, Ensures act s (fun _ s' => s'.plans = s.plans) →
      Ensures (act >>= fun a => pure (reply a)) s fun _ s' => s'.plans.get? id = s.plans.get? id := fun left =>
    left.bind (fun _ _ left => congrArg (FinMap.get? · id) left) fun _ _ left => congrArg (FinMap.get? · id) left
  cases command with
  | begin => rfl
  | step op => exact same (engineAct_plans op.act)
  | openScan name txn table =>
    refine same ((engineAct_plans (resolve table)).bind ?_ fun _ _ left => left)
    exact fun entry s' left => left
  | drawScan name count => exact same (onScan_plans name _)
  | rewindScan name => exact same (onScan_plans name _)
  | openPlan name query =>
    have differs : name ≠ id := of_decide_eq_true spares
    have opened : Ensures (openPlan name query) s fun _ s' => s'.plans.get? id = s.plans.get? id := by
      rw [Ensures, openPlan]
      cases Plan.ofQuery s.engine.catalog query with
      | error fault => rfl
      | ok plan => exact FinMap.get?_insert_of_ne _ _ _ _ (Ne.symm differs)
    exact opened.bind (fun _ _ left => left) fun _ _ left => left
  | usePlan name use =>
    have differs : name ≠ id := by
      intro same
      rw [Command.useOf?, if_pos same] at other
      exact absurd other (by simp)
    exact (onPlan_plans differs use.act).bind (fun _ _ left => left) fun _ _ left => left

/-- What is done with the plan is answered as was told, unless there is a reason to refuse it. -/
theorem run_heeds (steady : Steady c settings s) {shows : Engine → Prop}
    (tells : plan.source.Tells shows among sure rows still) (drawn : Drawn id plan still place s)
    (shown : shows s.engine) {use : Use} (told : use ≠ .fetch) :
    Ensures (Command.usePlan id use).run s fun reply s' =>
      reply = (use.told rows plan.replays place).1 ∧ Drawn id plan still (use.told rows plan.replays place).2 s' ∨
        ∃ fault, Reply.fault? reply = some fault ∧ s'.engine.Refuses among fault := by
  obtain ⟨cursor, here, stands⟩ := drawn
  have used := Cursor.act_heeds tells use told stands shown
  rw [plan.isSome_replay] at used
  refine ((run_usePlan here used).and (run_halts steady (.usePlan id use))).mono ?_
  rintro reply s' ⟨⟨cursor', here', -, heeds⟩, settled⟩
  refine heeds.imp (fun ⟨same, stands'⟩ => ⟨same, cursor', here', stands'⟩) fun ⟨fault, reported, refusal, _⟩ =>
    ⟨fault, reported, refusal.refuses_of_stuck ?_⟩
  rintro rfl
  exact settled.stuck reported

theorem useOf?_eq_some {command : Command} {use : Use} (uses : command.useOf? id = some use) :
    command = .usePlan id use := by
  cases command with
  | usePlan other use' =>
    rw [Command.useOf?] at uses
    split at uses
    · rename_i same
      cases uses
      rw [same]
    · exact absurd uses (by simp)
  | _ => exact absurd uses (by simp [Command.useOf?])

theorem Steady.shows_of_rowsOf (steady : Steady c settings s)
    (same : ∀ table ∈ among, s.engine.rowsOf table = contents table) :
    Shows c contents among s.engine := ⟨steady.ready.coherent, steady.ready.catalog, same⟩

/-- From where the plan is, everything that is done with it is answered as was told. -/
theorem replies_eq_tellings (steady : Steady c settings s)
    (tells : plan.source.Tells (Shows c contents among) among sure rows still) (drawn : Drawn id plan still place s)
    (commands : List Command) (spares : ∀ command ∈ commands, command.spares id = true)
    (same : ∀ done, done <+: commands → ∀ table ∈ among, (s.after done).engine.rowsOf table = contents table)
    (granted : ¬s.Refuses id among commands) :
    s.replies id commands = Use.tellings rows plan.replays place (commands.filterMap (·.useOf? id)) := by
  induction commands generalizing s place with
  | nil => rfl
  | cons command rest ih =>
    have shown := steady.shows_of_rowsOf (same [] List.nil_prefix)
    have steady' := (run_halts steady command).outcome.steady
    have same' : ∀ done, done <+: rest → ∀ table ∈ among,
        ((outcome command.run s).2.after done).engine.rowsOf table = contents table :=
      fun done among => same (command :: done) ((List.prefix_cons_inj command).mpr among)
    have spares' := fun other later => spares other (List.mem_cons_of_mem _ later)
    cases uses : command.useOf? id with
    | none =>
      have kept := (run_plans (s := s) (spares command List.mem_cons_self) uses).outcome
      obtain ⟨cursor, here, stands⟩ := drawn
      simp only [replies, uses, Option.isSome_none, Bool.false_eq_true, if_false, List.filterMap_cons]
      exact ih steady' ⟨cursor, kept.trans here, stands⟩ spares' same' fun later => granted (.inr later)
    | some use =>
      obtain rfl := useOf?_eq_some uses
      have told : use ≠ .fetch := by
        rintro rfl
        exact absurd (spares _ List.mem_cons_self) (by simp [Command.spares])
      simp only [replies, uses, Option.isSome_some, if_true, List.filterMap_cons]
      have heeds := (run_heeds steady tells drawn shown told).outcome
      have used : ((Command.usePlan id use).useOf? id).isSome := Option.isSome_iff_exists.mpr ⟨use, uses⟩
      obtain ⟨answered, drawn'⟩ := heeds.resolve_right fun refused => granted (.inl ⟨used, refused⟩)
      rw [Use.tellings, answered, ih steady' drawn' spares' same' fun later => granted (.inr later)]

end Session

/-! ### Archives -/

/-- Tables that have been opened with the rows that are in their files. -/
structure Archive where
  settings : Settings
  volume : Volume
  tables : List TableSpec
  ids : List TableId
  engine : Engine
  apart : tables.Pairwise TableSpec.Apart
  readable : ∀ t ∈ tables, ∀ name, t.fileName? = some name → ∀ table,
    (TableFile.ofContents table name t.schema settings.pageSize (volume.contents name)).Readable (volume.contents name)
  done : Engine.openTables tables (.start settings volume) = .ok ids engine

/-- There are no rows in the files of a database before anything has been done. -/
def Database.archive (d : Database) : Archive where
  settings := d.settings
  volume := d.volume
  tables := d.tables
  ids := d.ids
  engine := d.engine
  apart := d.fresh.apart
  readable t among name located table := by
    rw [d.fresh.empty t among name located]
    exact TableFile.readable_empty ..
  done := d.done

namespace Archive

variable (a : Archive)

def session : Session := ⟨a.engine, 0, .empty, .empty⟩

theorem session_steady : Session.Steady a.engine.catalog a.settings a.session := by
  have orderly := (openTables_tidies a.tables _ (tidy_start a.settings a.volume)).of_ok a.done
  have opened := opened_of_readable a.apart a.readable a.done
  refine ⟨⟨opened.registered.coherent, orderly.tidy, rfl, orderly.settings⟩, ?_⟩
  intro id r running
  exact absurd running (by simp [session])

/-- Nothing but a sum that is too large can be wrong with what a plan means that changes nothing. As long as
its tables have the rows that they had when it was made, everything that is done with it is answered as its
meaning says, whatever has been done before and whatever is done meanwhile, unless there is no room in memory
or another transaction is writing to one of its tables. -/
theorem plans_answer_what_they_mean (before : List Command) (id : String) (query : Query) (reads : query.reads = true)
    {plan : Plan} (made : Plan.ofQuery a.engine.catalog query = .ok plan) :
    let s := a.session.after before
    let opened := s.after [.openPlan id query]
    (∀ fault, plan.meaning s.engine.rowsOf = .error fault → ∃ summary, fault = .overflow summary) ∧
      ∀ rows, plan.meaning s.engine.rowsOf = .ok rows → ∀ commands : List Command,
        (∀ command ∈ commands, command.spares id = true) →
        (∀ done, done <+: commands → ∀ table ∈ plan.tables,
          (opened.after done).engine.rowsOf table = s.engine.rowsOf table) →
        ¬opened.Refuses id plan.tables commands →
        opened.replies id commands = Use.tellings rows plan.replays none (commands.filterMap (·.useOf? id)) := by
  intro s opened
  have steady := a.session_steady.steady_after before
  have planReads := Plan.reads_of_ofQuery query reads made
  have catalog : s.engine.catalog = a.engine.catalog := steady.ready.catalog
  have suit : ∀ table ∈ plan.tables, ∀ row ∈ s.engine.rowsOf table, row.Suits a.engine.catalog table := by
    intro table _ row here
    rw [← catalog]
    exact steady.ready.coherent.suits_of_mem here
  have meant := planReads.meant_meaning suit
  refine ⟨?_, ?_⟩
  · intro fault wrong
    rw [wrong] at meant
    exact meant
  · intro rows means commands spares same granted
    obtain ⟨still, tells⟩ : ∃ still,
        plan.source.Tells (Shows a.engine.catalog s.engine.rowsOf plan.tables) plan.tables False rows still :=
      planReads.tells_meaning (fun _ among => among) suit means False.elim
    have steady' : Session.Steady a.engine.catalog a.settings opened := steady.steady_after [.openPlan id query]
    have drawn : Session.Drawn id plan still none opened := Session.drawn_of_opened still (by rw [catalog, made])
    exact Session.replies_eq_tellings steady' tells drawn commands spares same granted

/-- Three numbers are put in and committed. -/
def threeNumbers : List Command :=
  [.openPlan "a" (.insert ⟨1⟩ ⟨1⟩ (.rows ⟨[⟨none, .int⟩]⟩ [[.int 4], [.int 2], [.int 9]])),
    .usePlan "a" .start, .usePlan "a" .next, .step (.commit ⟨1⟩)]

/-- Every number that is more than the least of them, with the least. -/
def aboveLeast : Query :=
  .join ⟨0, .gt, 0⟩ (.scan ⟨1⟩ ⟨2⟩ none) (.aggregate none 0 .min (.scan ⟨1⟩ ⟨2⟩ none))

def aboveLeastPlan : Plan :=
  let numbers : Plan := .scan ⟨⟨1⟩, ⟨0, ⟨[⟨some "n", .int⟩]⟩, "t"⟩, "t", ⟨2⟩⟩
  .join ⟨0, .gt, 0⟩ numbers (.aggregate ⟨none, 0, .min, ⟨[⟨some "min (t.n)", .int⟩]⟩⟩ numbers)

def aboveLeastRows : List Row :=
  [[.int 4, .int 2], [.int 9, .int 2]].map fun values =>
    ⟨⟨[⟨some "t.n", .int⟩, ⟨some "min (t.n)", .int⟩]⟩, values, none⟩

/-- The first row is looked at before it is taken, and then all are asked for from the beginning. -/
def lookings : List Command :=
  [.usePlan "b" .start, .usePlan "b" .hasNext, .usePlan "b" .next, .begin, .usePlan "b" .rewind,
    .usePlan "b" (.take 5), .usePlan "b" .close, .usePlan "b" .next]

theorem aboveLeast_is_told :
    aboveLeastPlan.meaning (Database.numbers.archive.session.after threeNumbers).engine.rowsOf = .ok aboveLeastRows ∧
      ((Database.numbers.archive.session.after threeNumbers).after [.openPlan "b" aboveLeast]).replies "b" lookings =
        Use.tellings aboveLeastRows false none [.start, .hasNext, .next, .rewind, .take 5, .close, .next] := by
  have made : Plan.ofQuery Database.numbers.archive.engine.catalog aboveLeast = .ok aboveLeastPlan := by cbv
  have means : aboveLeastPlan.meaning (Database.numbers.archive.session.after threeNumbers).engine.rowsOf =
      .ok aboveLeastRows := by cbv
  have spares : lookings.all (·.spares "b") = true := by cbv
  have same : lookings.inits.all (fun done => aboveLeastPlan.tables.all fun table =>
      decide ((((Database.numbers.archive.session.after threeNumbers).after [.openPlan "b" aboveLeast]).after
          done).engine.rowsOf table =
        (Database.numbers.archive.session.after threeNumbers).engine.rowsOf table)) = true := by cbv
  have granted : (((Database.numbers.archive.session.after threeNumbers).after [.openPlan "b" aboveLeast]).replies "b"
      lookings).all (fun reply => !Reply.isRefusal reply) = true := by cbv
  refine ⟨means, (plans_answer_what_they_mean Database.numbers.archive threeNumbers "b" aboveLeast rfl made).2
    aboveLeastRows means lookings ?_ ?_ (Session.not_refuses_of_replies ?_)⟩
  · exact fun command among => List.all_eq_true.mp spares command among
  · intro done first table among
    have still := List.all_eq_true.mp same done ((List.mem_inits done lookings).mpr first)
    exact of_decide_eq_true (List.all_eq_true.mp still table among)
  · intro reply among
    have free := List.all_eq_true.mp granted reply among
    rwa [Bool.not_eq_true'] at free

end Archive

end RowStore
