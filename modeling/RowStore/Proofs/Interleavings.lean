import RowStore.Proofs.Engine.Cousins
import RowStore.Proofs.Transparency
/-!
# Transactions that use different tables

Transactions take their steps in one session, in some order. They share memory, the record of uses and the table of
locks, so it depends on the order which pages are in memory at what time. Where no table is used by two of them and
memory is never found full, the order makes no difference to what any of them is told, nor to the files.
-/

namespace RowStore

/-! ### Whose commands they are -/

namespace Command

/-- Whose command it is. A scan that is open is known by its name. -/
def txn? (whose : String → TxnId) : Command → Option TxnId
  | .begin => none
  | .step op => some op.txn
  | .openScan _ txn _ => some txn
  | .drawScan id _ => some (whose id)
  | .rewindScan id => some (whose id)
  | .openPlan _ _ => none
  | .usePlan _ _ => none

def isOf (whose : String → TxnId) (txn : TxnId) (command : Command) : Bool :=
  decide (command.txn? whose = some txn)

def ends : Command → Bool
  | .step op => op.ends
  | _ => false

/-- The command is about tables and scans of the transaction. Rows are scanned with a scan that has been opened. -/
def keepsTo (owner : TableId → TxnId) (whose : String → TxnId) (txn : TxnId) : Command → Bool
  | .step (.scan _ _) => false
  | .step op => op.table?.all fun table => decide (owner table = txn)
  | .openScan id _ table => decide (whose id = txn) && decide (owner table = txn)
  | .drawScan _ _ => true
  | .rewindScan _ => true
  | _ => false

theorem owner_of_keepsTo {owner : TableId → TxnId} {whose : String → TxnId} {txn : TxnId} {op : Op}
    (keeps : (Command.step op).keepsTo owner whose txn = true) {table : TableId} (about : op.table? = some table) :
    owner table = txn := by
  cases op <;> simp_all [keepsTo]

/-- The command is somebody's, and about tables and scans of his. -/
def Owned (owner : TableId → TxnId) (whose : String → TxnId) (command : Command) : Prop :=
  ∃ txn, command.txn? whose = some txn ∧ command.keepsTo owner whose txn = true

end Command

/-- What a transaction does: it keeps to its own tables and scans, and nothing comes after its end. -/
structure Program (owner : TableId → TxnId) (whose : String → TxnId) (txn : TxnId) (commands : List Command) :
    Prop where
  keeps : ∀ command ∈ commands, command.keepsTo owner whose txn = true
  last : commands.Pairwise fun earlier _ => earlier.ends = false

/-- Everything is done that the transactions do, and nothing else, and what each does is done in its order. -/
structure Interleaves (whose : String → TxnId) (programs : TxnId → List Command) (commands : List Command) : Prop where
  known : ∀ command ∈ commands, (command.txn? whose).isSome = true
  ordered : ∀ txn, commands.filter (Command.isOf whose txn) = programs txn

namespace Session

/-- The commands with the replies to them. -/
def told (s : Session) : List Command → List (Command × Except Fault Reply)
  | [] => []
  | command :: rest => (command, (outcome command.run s).1) :: (outcome command.run s).2.told rest

def ran (s : Session) (commands : List Command) : Session :=
  commands.foldl (fun s command => (outcome command.run s).2) s

end Session

/-! ### What a command comes to -/

namespace Command

variable (s : Session)

theorem run_openScan (id : String) (txn : TxnId) (table : TableId) : outcome (run (.openScan id txn table)) s =
    match s.engine.catalog.find? table with
    | some entry => (.ok .done, { s with scans := s.scans.insert id (.start entry.file table txn) })
    | none => (.error (.unknownTable table), s) := by
  cases found : s.engine.catalog.find? table with
  | some entry =>
    have known : Engine.resolve table s.engine = .ok entry s.engine := by rw [Engine.resolve, found]
    change outcome (EStateM.bind (EStateM.bind (Session.engineAct (Engine.resolve table)) _) _) s = _
    rw [outcome, EStateM.bind, EStateM.bind, Session.engineAct, known]
    rfl
  | none =>
    have unknown : Engine.resolve table s.engine = .error (.unknownTable table) s.engine := by
      rw [Engine.resolve, found]
    change outcome (EStateM.bind (EStateM.bind (Session.engineAct (Engine.resolve table)) _) _) s = _
    rw [outcome, EStateM.bind, EStateM.bind, Session.engineAct, unknown]

theorem run_drawScan (id : String) (count : Nat) : outcome (run (.drawScan id count)) s =
    match s.scans.get? id with
    | none => (.ok .done, s)
    | some scan =>
      ((outcome (FileScan.take count) (scan, s.engine)).1.map fun taken => .rows taken.1 taken.2,
        { s with
          engine := (outcome (FileScan.take count) (scan, s.engine)).2.2
          scans := s.scans.insert id (outcome (FileScan.take count) (scan, s.engine)).2.1 }) := by
  change outcome (EStateM.bind (Session.onScan id (FileScan.take count)) _) s = _
  rw [outcome, EStateM.bind, Session.onScan]
  cases s.scans.get? id with
  | none => rfl
  | some scan =>
    dsimp only
    rw [outcome]
    cases FileScan.take count (scan, s.engine) <;> rfl

theorem run_rewindScan (id : String) : outcome (run (.rewindScan id)) s =
    match s.scans.get? id with
    | none => (.ok .done, s)
    | some scan => (.ok .done, { s with scans := s.scans.insert id scan.rewind }) := by
  change outcome (EStateM.bind (Session.onScan id (Step.update FileScan.rewind)) _) s = _
  rw [outcome, EStateM.bind, Session.onScan]
  cases s.scans.get? id <;> rfl

end Command

/-! ### Steps in two engines -/

theorem Op.agrees_of_cousins {c : Catalog} {owner : TableId → TxnId} {whose : String → TxnId} {txn : TxnId}
    {e₁ e₂ : Engine} (cousins : Engine.Cousins c (fun table => owner table = txn) txn e₁ e₂) (op : Op)
    (isOwn : op.txn = txn) (keeps : (Command.step op).keepsTo owner whose txn = true) (goesOn : op.ends = false) :
    Agrees (Engine.Cousins c (fun table => owner table = txn) txn) op.act op.act e₁ e₂
      (Alike (Engine.Cousins c (fun table => owner table = txn) txn)) := by
  have pairing := Engine.Cousins.pairing_cousins c (fun table => owner table = txn) txn
  have own : ∀ table, op.table? = some table → owner table = txn := fun _ => Command.owner_of_keepsTo keeps
  subst isOwn
  cases op with
  | insert txn table schema values =>
    refine (Engine.ofExcept_agrees cousins (Row.build schema values)).bind ?_
    rintro row t₁ _ t₂ ⟨rfl, cousins', built⟩
    refine (pairing.insert_agrees row (Row.conforms_of_build built).fits_own_schema (own table rfl) cousins').bind ?_
    rintro location u₁ _ u₂ ⟨rfl, cousins''⟩
    exact .pure ⟨rfl, cousins''⟩
  | delete txn row =>
    refine (pairing.delete_agrees cousins row fun location same => own _ (by rw [same]; rfl)).bind ?_
    rintro p t₁ _ t₂ ⟨rfl, cousins'⟩
    exact .pure ⟨rfl, cousins'⟩
  | read txn page mode =>
    refine (pairing.getPage cousins (own page.table rfl) mode).bind ?_
    rintro found t₁ _ t₂ ⟨rfl, cousins', -⟩
    exact .pure ⟨rfl, cousins'⟩
  | scan s count => exact absurd keeps (by simp [Command.keepsTo])
  | commit txn => exact absurd goesOn (by simp [Op.ends])
  | abort txn => exact absurd goesOn (by simp [Op.ends])

theorem Op.ends_of_cousins {c : Catalog} {mine : TableId → Prop} {e₁ e₂ : Engine} (op : Op)
    (cousins : Engine.Cousins c mine op.txn e₁ e₂) (closes : op.ends = true) :
    Agrees (Engine.Retired c mine op.txn) op.act op.act e₁ e₂ (Alike (Engine.Retired c mine op.txn)) := by
  obtain ⟨txn, rfl | rfl⟩ := eq_of_ends closes
  · exact cousins.commit_agrees.bind fun _ _ _ _ done => .pure ⟨rfl, done.2⟩
  · exact cousins.abort_agrees.bind fun _ _ _ _ done => .pure ⟨rfl, done.2⟩

/-! ### Scans that are open -/

/-- The scan is the transaction's and of one of its tables. -/
structure FileScan.Proper (owner : TableId → TxnId) (c : Catalog) (txn : TxnId) (scan : FileScan) : Prop where
  reader : scan.txn = txn
  own : owner scan.table = txn
  file : ∃ entry, c.find? scan.table = some entry ∧ entry.file = scan.file

theorem FileScan.Proper.proper_of_alike {owner : TableId → TxnId} {c : Catalog} {txn : TxnId} {scan later : FileScan}
    (proper : scan.Proper owner c txn) (alike : scan.Alike later) : later.Proper owner c txn := by
  obtain ⟨file, table, whose⟩ := alike
  exact ⟨whose.trans proper.reader, table ▸ proper.own, by rw [table, file]; exact proper.file⟩

namespace Session

/-- Every scan that is open is that of the transaction to which its name belongs. -/
def Bound (owner : TableId → TxnId) (whose : String → TxnId) (s : Session) : Prop :=
  ∀ id scan, s.scans.get? id = some scan → scan.Proper owner s.engine.catalog (whose id)

variable {owner : TableId → TxnId} {whose : String → TxnId} {txn other : TxnId} {s s' s'' : Session}

theorem Bound.bound_insert (bound : s.Bound owner whose) {id : String} {scan : FileScan} {e : Engine}
    (catalog : e.catalog = s.engine.catalog) (proper : scan.Proper owner e.catalog (whose id)) :
    Bound owner whose { s with engine := e, scans := s.scans.insert id scan } := by
  intro id' scan' here
  rw [FinMap.get?_insert] at here
  split at here
  · rename_i same
    cases here
    exact same ▸ proper
  · rw [catalog]
    exact bound id' scan' here

theorem Bound.bound_of_catalog (bound : s.Bound owner whose) {e : Engine} (catalog : e.catalog = s.engine.catalog) :
    Bound owner whose { s with engine := e } := fun id scan here => catalog.symm ▸ bound id scan here

/-! ### Somebody else's commands -/

/-- Nothing has happened to the transaction's tables and scans that it could tell. -/
structure Untouched (owner : TableId → TxnId) (whose : String → TxnId) (txn : TxnId) (s s' : Session) : Prop where
  engine : Engine.Untouched (fun table => owner table = txn) txn s.engine s'.engine
  sturdy : s'.engine.Sturdy
  bound : s'.Bound owner whose
  scans : ∀ id, whose id = txn → s'.scans.get? id = s.scans.get? id

theorem Untouched.trans (first : Untouched owner whose txn s s') (second : Untouched owner whose txn s' s'') :
    Untouched owner whose txn s s'' where
  engine := first.engine.trans second.engine
  sturdy := second.sturdy
  bound := second.bound
  scans id own := (second.scans id own).trans (first.scans id own)

theorem Bound.untouched_insert (bound : s.Bound owner whose) {id : String} {scan : FileScan} {e : Engine}
    (untouched : Engine.Untouched (fun table => owner table = txn) txn s.engine e) (sturdy : e.Sturdy)
    (proper : scan.Proper owner s.engine.catalog (whose id)) (differs : whose id ≠ txn) :
    Untouched owner whose txn s { s with engine := e, scans := s.scans.insert id scan } where
  engine := untouched
  sturdy := sturdy
  bound := bound.bound_insert untouched.catalog (untouched.catalog.symm ▸ proper)
  scans _ own := FinMap.get?_insert_of_ne _ _ _ _ fun same => differs (same ▸ own)

theorem untouched_of_other (bound : s.Bound owner whose)
    (sole : Engine.Sole (fun table => owner table = txn) txn s.engine) (differs : other ≠ txn) {command : Command}
    (isOther : command.txn? whose = some other) (keeps : command.keepsTo owner whose other = true) :
    Untouched owner whose txn s (outcome command.run s).2 := by
  have idle : Untouched owner whose txn s s := ⟨.refl, sole.toSturdy, bound, fun _ _ => rfl⟩
  cases command with
  | begin => exact absurd keeps (by simp [Command.keepsTo])
  | openPlan id query => exact absurd keeps (by simp [Command.keepsTo])
  | usePlan id use => exact absurd keeps (by simp [Command.keepsTo])
  | step op =>
    have same : op.txn = other := Option.some.inj isOther
    have ours : Engine.Ours (fun table => owner table = txn) txn s.engine := sole.changed
    have done := op.act_untouched sole.toSturdy (fun _ => ours) (same ▸ differs) fun table about own =>
      differs ((Command.owner_of_keepsTo keeps about).symm.trans own)
    obtain ⟨sturdy, untouched⟩ := done.outcome
    rw [Command.run_step]
    exact ⟨untouched, sturdy, bound.bound_of_catalog untouched.catalog, fun _ _ => rfl⟩
  | openScan id opener table =>
    obtain rfl : opener = other := Option.some.inj isOther
    simp only [Command.keepsTo, Bool.and_eq_true, decide_eq_true_eq] at keeps
    obtain ⟨rfl, own⟩ := keeps
    rw [Command.run_openScan]
    cases found : s.engine.catalog.find? table with
    | none => exact idle
    | some entry => exact bound.untouched_insert .refl sole.toSturdy ⟨rfl, own, entry, found, rfl⟩ differs
  | drawScan id count =>
    obtain rfl : whose id = other := Option.some.inj isOther
    rw [Command.run_drawScan]
    cases here : s.scans.get? id with
    | none => exact idle
    | some scan =>
      have proper := bound id scan here
      have ours : Engine.Ours (fun table => owner table = txn) txn s.engine := sole.changed
      have drawn := (Op.scan scan count).act_untouched sole.toSturdy (fun _ => ours) (proper.reader.trans_ne differs)
        fun table about own' => by
          cases about
          exact differs (proper.own.symm.trans own')
      have taken := (@FileScan.take_glances (fun _ => True) scan trivial s.engine count).outcome
      -- the step draws rows and forgets the scan, which the session keeps
      have same : (outcome (Op.scan scan count).act s.engine).2 =
          (outcome (FileScan.take count) (scan, s.engine)).2.2 := by
        rw [outcome, outcome, Op.act, FileScan.draw]
        cases FileScan.take count (scan, s.engine) <;> rfl
      obtain ⟨sturdy, untouched⟩ := drawn.outcome
      rw [same] at sturdy untouched
      exact bound.untouched_insert untouched sturdy (proper.proper_of_alike taken.2.1) differs
  | rewindScan id =>
    obtain rfl : whose id = other := Option.some.inj isOther
    rw [Command.run_rewindScan]
    cases here : s.scans.get? id with
    | none => exact idle
    | some scan =>
      exact bound.untouched_insert .refl sole.toSturdy ((bound id scan here).proper_of_alike ⟨rfl, rfl, rfl⟩) differs

theorem untouched_of_others (bound : s.Bound owner whose)
    (sole : Engine.Sole (fun table => owner table = txn) txn s.engine) {commands : List Command}
    (owned : ∀ command ∈ commands, command.Owned owner whose)
    (others : ∀ command ∈ commands, command.isOf whose txn = false) :
    Untouched owner whose txn s (s.ran commands) := by
  induction commands generalizing s with
  | nil => exact ⟨.refl, sole.toSturdy, bound, fun _ _ => rfl⟩
  | cons command rest ih =>
    rw [List.forall_mem_cons] at owned others
    obtain ⟨⟨other, isOther, keeps⟩, owned⟩ := owned
    have differs : other ≠ txn := by
      rintro rfl
      exact absurd others.1 (by simp [Command.isOf, isOther])
    have first := untouched_of_other bound sole differs isOther keeps
    exact first.trans (ih first.bound (first.engine.sole_mono sole first.sturdy) owned others.2)

/-! ### The transaction's own commands -/

/-- The transaction finds the same in both sessions, and has the same scans open. -/
structure Cousins (c : Catalog) (owner : TableId → TxnId) (whose : String → TxnId) (txn : TxnId) (s₁ s₂ : Session) :
    Prop where
  engines : Engine.Cousins c (fun table => owner table = txn) txn s₁.engine s₂.engine
  left : s₁.Bound owner whose
  right : s₂.Bound owner whose
  scans : ∀ id, whose id = txn → s₂.scans.get? id = s₁.scans.get? id

structure Retired (c : Catalog) (owner : TableId → TxnId) (whose : String → TxnId) (txn : TxnId) (s₁ s₂ : Session) :
    Prop where
  engines : Engine.Retired c (fun table => owner table = txn) txn s₁.engine s₂.engine
  left : s₁.Bound owner whose
  right : s₂.Bound owner whose

section

variable {c : Catalog} {s₁ s₂ t₁ : Session}

theorem Cousins.symm (cousins : Cousins c owner whose txn s₁ s₂) : Cousins c owner whose txn s₂ s₁ :=
  ⟨cousins.engines.symm, cousins.right, cousins.left, fun id own => (cousins.scans id own).symm⟩

theorem Cousins.cousins_of_untouched (cousins : Cousins c owner whose txn s₁ s₂)
    (untouched : Untouched owner whose txn s₁ t₁) :
    Cousins c owner whose txn t₁ s₂ where
  engines := cousins.engines.cousins_of_untouched untouched.engine untouched.sturdy
  left := untouched.bound
  right := cousins.right
  scans id own := (cousins.scans id own).trans (untouched.scans id own).symm

theorem Cousins.cousins_rescanned (cousins : Cousins c owner whose txn s₁ s₂) {e₁ e₂ : Engine}
    (engines : Engine.Cousins c (fun table => owner table = txn) txn e₁ e₂) {id : String} {scan : FileScan}
    (proper : scan.Proper owner c (whose id)) :
    Cousins c owner whose txn { s₁ with engine := e₁, scans := s₁.scans.insert id scan }
      { s₂ with engine := e₂, scans := s₂.scans.insert id scan } where
  engines := engines
  left := cousins.left.bound_insert (engines.registered.trans cousins.engines.registered.symm)
    (engines.registered.symm ▸ proper)
  right := cousins.right.bound_insert
    (engines.symm.registered.trans cousins.engines.symm.registered.symm) (engines.symm.registered.symm ▸ proper)
  scans id' own := by
    rw [FinMap.get?_insert, FinMap.get?_insert, cousins.scans id' own]

theorem Cousins.proper_of_get? (cousins : Cousins c owner whose txn s₁ s₂) {id : String} {scan : FileScan}
    (here : s₁.scans.get? id = some scan) : scan.Proper owner c (whose id) :=
  cousins.engines.registered ▸ cousins.left id scan here

theorem Cousins.paged_of_get? (cousins : Cousins c owner whose txn s₁ s₂) {id : String} {scan : FileScan}
    (here : s₁.scans.get? id = some scan) (own : whose id = txn) :
    scan.Paged (fun _ => True) (Engine.Cousins c (fun table => owner table = txn) txn) := by
  subst own
  have pairing := Engine.Cousins.pairing_cousins c (fun table => owner table = whose id) (whose id)
  obtain ⟨reader, table, entry, found, file⟩ := cousins.proper_of_get? here
  refine ⟨fun engines number => ?_, fun engines => ?_⟩
  · rw [reader]
    refine (pairing.getPage (p := ⟨scan.table, number⟩) engines table .shared).mono ?_
    exact fun _ _ _ _ done => ⟨done.1, done.2.1, fun _ _ => trivial⟩
  · rw [← file]
    exact pairing.pagesOf engines table found

/-- Whatever it does, unless it ends, the transaction is told the same. -/
theorem Cousins.run_agrees (cousins : Cousins c owner whose txn s₁ s₂) {command : Command}
    (isOwn : command.txn? whose = some txn) (keeps : command.keepsTo owner whose txn = true)
    (goesOn : command.ends = false) :
    Agrees (Cousins c owner whose txn) command.run command.run s₁ s₂
      (Partly (Cousins c owner whose txn) Reply.Full) := by
  have engines := cousins.engines
  cases command with
  | begin => exact absurd keeps (by simp [Command.keepsTo])
  | openPlan id query => exact absurd keeps (by simp [Command.keepsTo])
  | usePlan id use => exact absurd keeps (by simp [Command.keepsTo])
  | step op =>
    have after : ∀ e₁ e₂, Engine.Cousins c (fun table => owner table = txn) txn e₁ e₂ →
        Cousins c owner whose txn { s₁ with engine := e₁ } { s₂ with engine := e₂ } := by
      intro e₁ e₂ after
      exact ⟨after, cousins.left.bound_of_catalog (after.registered.trans engines.registered.symm),
        cousins.right.bound_of_catalog (after.symm.registered.trans engines.symm.registered.symm), cousins.scans⟩
    refine (op.agrees_of_cousins engines (Option.some.inj isOwn) keeps goesOn).lift Reply.answer
      (fun e => { s₁ with engine := e }) (fun e => { s₂ with engine := e }) (Command.run_step s₁ op)
      (Command.run_step s₂ op) after ?_
    rintro answer e₁ _ e₂ ⟨rfl, later⟩
    exact .of_twins (after e₁ e₂ later)
  | openScan id opener table =>
    obtain rfl : opener = txn := Option.some.inj isOwn
    simp only [Command.keepsTo, Bool.and_eq_true, decide_eq_true_eq] at keeps
    obtain ⟨rfl, own⟩ := keeps
    rw [Agrees, Command.run_openScan, Command.run_openScan, engines.catalog]
    cases found : s₁.engine.catalog.find? table with
    | none => exact .error_of_twins cousins
    | some entry =>
      exact .of_twins (cousins.cousins_rescanned engines ⟨rfl, own, entry, engines.registered ▸ found, rfl⟩)
  | drawScan id count =>
    obtain rfl : whose id = txn := Option.some.inj isOwn
    cases here : s₁.scans.get? id with
    | none =>
      rw [Agrees, Command.run_drawScan, Command.run_drawScan, cousins.scans id rfl, here]
      exact .of_twins cousins
    | some scan =>
      have proper := cousins.proper_of_get? here
      have left := Command.run_drawScan s₁ id count
      have right := Command.run_drawScan s₂ id count
      rw [here] at left
      rw [cousins.scans id rfl, here] at right
      have abreast : FileScan.Abreast scan (fun _ => True)
          (Engine.Cousins c (fun table => owner table = whose id) (whose id)) (scan, s₁.engine) (scan, s₂.engine) :=
        ⟨rfl, ⟨rfl, rfl, rfl⟩, fun _ _ => trivial, engines⟩
      have after : ∀ t₁ t₂, FileScan.Abreast scan (fun _ => True)
          (Engine.Cousins c (fun table => owner table = whose id) (whose id)) t₁ t₂ →
          Cousins c owner whose (whose id) { s₁ with engine := t₁.2, scans := s₁.scans.insert id t₁.1 }
            { s₂ with engine := t₂.2, scans := s₂.scans.insert id t₂.1 } := by
        rintro ⟨scan₁, e₁⟩ ⟨scan₂, e₂⟩ ⟨same, alike, -, later⟩
        obtain rfl : scan₁ = scan₂ := same
        exact cousins.cousins_rescanned later (proper.proper_of_alike alike)
      refine (FileScan.take_abreast (cousins.paged_of_get? here rfl) abreast count).lift (fun taken =>
        Reply.rows taken.1 taken.2)
        (fun t => { s₁ with engine := t.2, scans := s₁.scans.insert id t.1 })
        (fun t => { s₂ with engine := t.2, scans := s₂.scans.insert id t.1 }) left right after ?_
      intro taken t₁ taken' t₂ done
      have cut : ∀ taken : List (Option Row) × Option Fault, Short taken → (Reply.rows taken.1 taken.2).Full :=
        fun _ short => short
      exact done.map (fun taken => Reply.rows taken.1 taken.2) cut (after t₁ t₂)
  | rewindScan id =>
    obtain rfl : whose id = txn := Option.some.inj isOwn
    rw [Agrees, Command.run_rewindScan, Command.run_rewindScan, cousins.scans id rfl]
    cases here : s₁.scans.get? id with
    | none => exact .of_twins cousins
    | some scan =>
      exact .of_twins (cousins.cousins_rescanned engines ((cousins.proper_of_get? here).proper_of_alike
        ⟨rfl, rfl, rfl⟩))

theorem Cousins.end_agrees (cousins : Cousins c owner whose txn s₁ s₂) {command : Command}
    (isOwn : command.txn? whose = some txn) (closes : command.ends = true) :
    Agrees (Retired c owner whose txn) command.run command.run s₁ s₂ (Partly (Retired c owner whose txn) Reply.Full) := by
  cases command with
  | step op =>
    obtain rfl : op.txn = txn := Option.some.inj isOwn
    have after : ∀ e₁ e₂, Engine.Retired c (fun table => owner table = op.txn) op.txn e₁ e₂ →
        Retired c owner whose op.txn { s₁ with engine := e₁ } { s₂ with engine := e₂ } := by
      intro e₁ e₂ after
      have catalog₁ : e₁.catalog = s₁.engine.catalog := after.registered.trans cousins.engines.registered.symm
      have catalog₂ : e₂.catalog = s₂.engine.catalog :=
        after.catalog.trans (catalog₁.trans cousins.engines.catalog.symm)
      exact ⟨after, cousins.left.bound_of_catalog catalog₁, cousins.right.bound_of_catalog catalog₂⟩
    refine (op.ends_of_cousins cousins.engines closes).lift Reply.answer
      (fun e => { s₁ with engine := e }) (fun e => { s₂ with engine := e }) (Command.run_step s₁ op)
      (Command.run_step s₂ op) after ?_
    rintro answer e₁ _ e₂ ⟨rfl, later⟩
    exact .of_twins (after e₁ e₂ later)
  | _ => exact absurd closes (by simp [Command.ends])

end

/-! ### Any number of commands -/

section

theorem told_append (s : Session) (earlier later : List Command) :
    s.told (earlier ++ later) = s.told earlier ++ (s.ran earlier).told later := by
  induction earlier generalizing s with
  | nil => rfl
  | cons command rest ih => exact congrArg _ (ih _)

theorem ran_append (s : Session) (earlier later : List Command) :
    s.ran (earlier ++ later) = (s.ran earlier).ran later := List.foldl_append

def toldTo (whose : String → TxnId) (txn : TxnId) (s : Session) (commands : List Command) :
    List (Command × Except Fault Reply) :=
  (s.told commands).filter fun told => told.1.isOf whose txn

theorem toldTo_of_others {commands : List Command} (others : ∀ command ∈ commands, command.isOf whose txn = false) :
    s.toldTo whose txn commands = [] := by
  induction commands generalizing s with
  | nil => rfl
  | cons command rest ih =>
    rw [List.forall_mem_cons] at others
    exact (List.filter_cons_of_neg (by simp [others.1])).trans (ih others.2)

theorem toldTo_append (s : Session) (earlier later : List Command) :
    s.toldTo whose txn (earlier ++ later) = s.toldTo whose txn earlier ++ (s.ran earlier).toldTo whose txn later := by
  rw [toldTo, told_append, List.filter_append]
  rfl

/-- The session never runs out of memory. -/
def Roomy (s : Session) (commands : List Command) : Prop :=
  ∀ told ∈ s.told commands, Reply.fault? told.2 ≠ some .poolFull

theorem Roomy.cons {command : Command} {rest : List Command} (roomy : s.Roomy (command :: rest)) :
    Reply.fault? (outcome command.run s).1 ≠ some .poolFull ∧ (outcome command.run s).2.Roomy rest :=
  List.forall_mem_cons.mp roomy

theorem Roomy.roomy_of_append {earlier later : List Command} (roomy : s.Roomy (earlier ++ later)) :
    (s.ran earlier).Roomy later := by
  intro told among
  refine roomy told ?_
  rw [told_append]
  exact List.mem_append_right _ among

variable {c : Catalog} {s₁ s₂ : Session} {xs ys : List Command}

/-- What the transaction has been told is the same, and the files of its tables are. -/
def Concur (owner : TableId → TxnId) (whose : String → TxnId) (txn : TxnId) (s₁ : Session) (xs : List Command)
    (s₂ : Session) (ys : List Command) : Prop :=
  s₁.toldTo whose txn xs = s₂.toldTo whose txn ys ∧
    Engine.SameBytes (fun table => owner table = txn) (s₁.ran xs).engine (s₂.ran ys).engine

/-- Both sessions take the same command of the transaction, and are told the same. -/
theorem Concur.cons {command : Command} (isOwn : command.isOf whose txn = true)
    (told : (outcome command.run s₁).1 = (outcome command.run s₂).1)
    (concur : Concur owner whose txn (outcome command.run s₁).2 xs (outcome command.run s₂).2 ys) :
    Concur owner whose txn s₁ (command :: xs) s₂ (command :: ys) := by
  refine ⟨?_, concur.2⟩
  have first : ∀ (s : Session) (rest : List Command), s.toldTo whose txn (command :: rest) =
      (command, (outcome command.run s).1) :: (outcome command.run s).2.toldTo whose txn rest :=
    fun s rest => List.filter_cons_of_pos isOwn
  rw [first, first, told, concur.1]

theorem Retired.concur_of_others (retired : Retired c owner whose txn s₁ s₂)
    (owned₁ : ∀ command ∈ xs, command.Owned owner whose)
    (owned₂ : ∀ command ∈ ys, command.Owned owner whose) (others₁ : ∀ command ∈ xs, command.isOf whose txn = false)
    (others₂ : ∀ command ∈ ys, command.isOf whose txn = false) : Concur owner whose txn s₁ xs s₂ ys := by
  have left := untouched_of_others retired.left retired.engines.left owned₁ others₁
  have right := untouched_of_others retired.right retired.engines.right owned₂ others₂
  refine ⟨by rw [toldTo_of_others others₁, toldTo_of_others others₂], ?_⟩
  exact (left.engine.toSameBytes.symm.trans retired.engines.toSameBytes).trans right.engine.toSameBytes

/-- The transaction's own commands are taken in pairs, and others come between them on either side. -/
theorem Cousins.concur_of_filter (cousins : Cousins c owner whose txn s₁ s₂)
    (owned₁ : ∀ command ∈ xs, command.Owned owner whose) (owned₂ : ∀ command ∈ ys, command.Owned owner whose)
    (same : xs.filter (Command.isOf whose txn) = ys.filter (Command.isOf whose txn))
    (last : (xs.filter (Command.isOf whose txn)).Pairwise fun earlier _ => earlier.ends = false)
    (roomy₁ : s₁.Roomy xs) (roomy₂ : s₂.Roomy ys) : Concur owner whose txn s₁ xs s₂ ys := by
  induction xs generalizing s₁ s₂ ys with
  | nil =>
    have others : ∀ command ∈ ys, command.isOf whose txn = false := by
      simpa using List.filter_eq_nil_iff.mp same.symm
    have right := untouched_of_others cousins.right cousins.engines.right.toSole owned₂ others
    refine ⟨(toldTo_of_others others).symm, ?_⟩
    exact cousins.engines.toSameBytes.trans right.engine.toSameBytes
  | cons command rest ih =>
    rw [List.forall_mem_cons] at owned₁
    obtain ⟨⟨actor, isActor, keeps⟩, owned₁⟩ := owned₁
    obtain ⟨room₁, later₁⟩ := roomy₁.cons
    cases own : command.isOf whose txn with
    | false =>
      have differs : actor ≠ txn := by
        rintro rfl
        exact absurd own (by simp [Command.isOf, isActor])
      have left := untouched_of_other cousins.left cousins.engines.left.toSole differs isActor keeps
      rw [List.filter_cons_of_neg (by simp [own])] at same last
      obtain ⟨told, bytes⟩ := ih (cousins.cousins_of_untouched left) owned₁ owned₂ same last later₁ roomy₂
      exact ⟨(List.filter_cons_of_neg (by simp [own])).trans told, bytes⟩
    | true =>
      -- on the other side the same command comes after some that are others'
      obtain rfl : actor = txn := Option.some.inj (isActor.symm.trans (of_decide_eq_true own))
      rw [List.filter_cons_of_pos own] at same last
      obtain ⟨before, after, rfl, others, -, same⟩ := List.filter_eq_cons_iff.mp same.symm
      have others : ∀ command ∈ before, command.isOf whose actor = false := by simpa using others
      rw [List.forall_mem_append, List.forall_mem_cons] at owned₂
      obtain ⟨ownedBefore, -, owned₂⟩ := owned₂
      have right := untouched_of_others cousins.right cousins.engines.right.toSole ownedBefore others
      have cousins' : Cousins c owner whose actor s₁ (s₂.ran before) := (cousins.symm.cousins_of_untouched right).symm
      obtain ⟨room₂, later₂⟩ := roomy₂.roomy_of_append.cons
      suffices paired : Concur owner whose actor s₁ (command :: rest) (s₂.ran before) (command :: after) by
        refine ⟨?_, ?_⟩
        · rw [toldTo_append, toldTo_of_others others, List.nil_append, paired.1]
        · rw [ran_append]
          exact paired.2
      obtain ⟨first, last⟩ := List.pairwise_cons.mp last
      cases closes : command.ends with
      | false =>
        obtain ⟨told, next⟩ := (cousins'.run_agrees isActor keeps closes).eq_of_room (Reply.not_full_of_room room₁)
          (Reply.not_full_of_room room₂)
        exact .cons own told (ih next owned₁ owned₂ same.symm last later₁ later₂)
      | true =>
        -- the transaction has ended, so what is left is all others'
        have nothing : rest.filter (Command.isOf whose actor) = [] := by
          refine List.eq_nil_iff_forall_not_mem.mpr fun later among => ?_
          exact absurd (closes.symm.trans (first later among)) (by simp)
        have others₁ : ∀ command ∈ rest, command.isOf whose actor = false := by
          simpa using List.filter_eq_nil_iff.mp nothing
        have others₂ : ∀ command ∈ after, command.isOf whose actor = false := by
          simpa using List.filter_eq_nil_iff.mp (same.trans nothing)
        obtain ⟨told, retired⟩ := (cousins'.end_agrees isActor closes).eq_of_room (Reply.not_full_of_room room₁)
          (Reply.not_full_of_room room₂)
        exact .cons own told (retired.concur_of_others owned₁ owned₂ others₁ others₂)

end

end Session

/-! ### Two orders -/

namespace Course

def opening (tables : List TableSpec) : List Move := tables.map fun t => .register t.path t.schema t.name

theorem idle_after_opening (settings : Settings) (volume : Volume) (tables : List TableSpec) :
    (after settings volume (opening tables)).engine.resident = .empty ∧
      (after settings volume (opening tables)).engine.locks = .empty := by
  induction tables using List.reverseRecOn with
  | nil => exact ⟨rfl, rfl⟩
  | append_singleton tables t ih =>
    have kept := kept_after settings volume (opening tables)
    obtain ⟨-, resident, locks⟩ := (Engine.createTable_spares kept.regular t.path t.schema t.name).outcome
    rw [opening, List.map_append, List.map_singleton, after_concat]
    exact ⟨resident.trans ih.1, locks.trans ih.2⟩

end Course

namespace Session

variable {owner : TableId → TxnId} {whose : String → TxnId} {s : Session}

/-- So far each transaction has locked and changed pages of its own tables only, and opened scans of them, and the pages
in memory without changes are what their files have. -/
structure Divided (owner : TableId → TxnId) (whose : String → TxnId) (s : Session) : Prop where
  held : ∀ p txn mode, s.engine.locks.mode? txn p = some mode → owner p.table = txn
  changed : ∀ p page txn, s.engine.resident.get? p = some page → page.dirtier = some txn → owner p.table = txn
  clean : ∀ p page, s.engine.resident.get? p = some page → page.dirtier = none → s.engine.stored? p = some page
  bound : s.Bound owner whose

theorem Divided.cousins_self (divided : s.Divided owner whose) (sturdy : s.engine.Sturdy) (txn : TxnId) :
    Cousins s.engine.catalog owner whose txn s s := by
  have running : Engine.Running (fun table => owner table = txn) txn s.engine := by
    refine ⟨⟨sturdy, ?_, ?_⟩, fun p page _ => divided.clean p page, fun p page => divided.changed p page txn⟩
    · intro p holder own differs
      refine Option.eq_none_iff_forall_ne_some.mpr fun mode locked => ?_
      exact differs ((divided.held p holder mode locked).symm.trans own)
    · intro p page other own here dirty
      exact (divided.changed p page other here dirty).symm.trans own
  exact ⟨⟨.refl, running, running, rfl, fun _ _ => rfl, fun _ _ => rfl⟩, divided.bound, divided.bound, fun _ _ => rfl⟩

def opened (settings : Settings) (volume : Volume) (tables : List TableSpec) : Session :=
  ⟨(Course.after settings volume (Course.opening tables)).engine, 0, .empty, .empty⟩

theorem divided_opened (settings : Settings) (volume : Volume) (tables : List TableSpec) :
    (opened settings volume tables).Divided owner whose := by
  obtain ⟨resident, locks⟩ := Course.idle_after_opening settings volume tables
  refine ⟨?_, ?_, ?_, ?_⟩
  · intro p txn mode locked
    rw [opened, locks] at locked
    exact absurd locked (by simp [LockTable.mode?, LockTable.empty])
  · intro p page txn here
    rw [opened, resident] at here
    exact absurd here (by simp)
  · intro p page here
    rw [opened, resident] at here
    exact absurd here (by simp)
  · intro id scan here
    exact absurd here (by simp [opened])

/-- When no table is used by two transactions, it makes no difference in what order they take their steps: each is told
the same at each of its steps, and every file is the same in the end, as long as memory is never found full. They may
start on tables that have just been registered (`divided_opened`), or when some of them have gone on for a while. -/
theorem disjoint_transactions_do_not_interfere (settings : Settings) (volume : Volume) (moves : List Move) {s : Session}
    (reached : s.engine = (Course.after settings volume moves).engine) {owner : TableId → TxnId}
    {whose : String → TxnId} (divided : s.Divided owner whose) {programs : TxnId → List Command}
    (disjoint : ∀ txn, Program owner whose txn (programs txn)) {xs ys : List Command}
    (left : Interleaves whose programs xs) (right : Interleaves whose programs ys) (roomy₁ : s.Roomy xs)
    (roomy₂ : s.Roomy ys) : (∀ txn, s.toldTo whose txn xs = s.toldTo whose txn ys) ∧
      ∀ name, (s.ran xs).engine.volume.contents name = (s.ran ys).engine.volume.contents name := by
  have sturdy : s.engine.Sturdy := reached ▸ Course.sturdy_after settings volume moves
  have owned : ∀ {commands}, Interleaves whose programs commands → ∀ command ∈ commands, command.Owned owner whose := by
    intro commands interleaves command among
    obtain ⟨txn, isTxn⟩ := Option.isSome_iff_exists.mp (interleaves.known command among)
    refine ⟨txn, isTxn, (disjoint txn).keeps command ?_⟩
    rw [← interleaves.ordered txn]
    exact List.mem_filter.mpr ⟨among, decide_eq_true isTxn⟩
  have concur : ∀ txn, Concur owner whose txn s xs s ys := by
    intro txn
    refine (divided.cousins_self sturdy txn).concur_of_filter (owned left) (owned right) ?_ ?_ roomy₁ roomy₂
    · rw [left.ordered, right.ordered]
    · rw [left.ordered]
      exact (disjoint txn).last
  refine ⟨fun txn => (concur txn).1, fun name => ?_⟩
  cases numbered : (s.ran xs).engine.volume.number? name with
  | none => exact ((concur ⟨0⟩).2.contents name fun table same => absurd (numbered.symm.trans same) (by simp)).symm
  | some table =>
    refine ((concur (owner table)).2.contents name fun other same => ?_).symm
    cases numbered.symm.trans same
    rfl

/-- A number is put into the first table. -/
def numberA : List Command := [.step (.insert ⟨1⟩ ⟨1⟩ Course.number [.int 7]), .step (.commit ⟨1⟩)]

/-- A number is put into the second one while it is read. -/
def numberB : List Command :=
  [.openScan "b" ⟨2⟩ ⟨2⟩, .step (.insert ⟨2⟩ ⟨2⟩ Course.number [.int 8]), .drawScan "b" 1, .step (.abort ⟨2⟩)]

/-- The first is done after the second has begun. -/
def numberAWithinB : List Command := numberB.take 1 ++ numberA ++ numberB.drop 1

/-- One page may be in memory, and it takes one number. -/
def cramped : Settings := { pageSize := 5, poolPages := 1 }

def twoTables : List TableSpec := [⟨"a.dat", Course.number, "a"⟩, ⟨"b.dat", Course.number, "b"⟩]

def narrow : Session := opened cramped .empty twoTables

def onePerTable : TxnId → List Command
  | ⟨1⟩ => numberA
  | ⟨2⟩ => numberB
  | _ => []

/-- Between the steps of the other a page of the first has to go, and after them it stays. Neither is told anything
else. -/
theorem one_may_come_between :
    (narrow.ran numberAWithinB).engine.resident.size = 0 ∧
    (narrow.ran (numberB ++ numberA)).engine.resident.size = 1 ∧
    (∀ txn, narrow.toldTo (fun _ => ⟨2⟩) txn numberAWithinB =
      narrow.toldTo (fun _ => ⟨2⟩) txn (numberB ++ numberA)) ∧
    ∀ name, (narrow.ran numberAWithinB).engine.volume.contents name =
      (narrow.ran (numberB ++ numberA)).engine.volume.contents name := by
  have room : ∀ commands, (narrow.told commands).all (fun told => decide (Reply.fault? told.2 ≠ some .poolFull)) = true →
      narrow.Roomy commands := by
    intro commands all told among
    exact of_decide_eq_true (List.all_eq_true.mp all told among)
  have disjoint : ∀ txn, Program (fun table => ⟨table.number⟩) (fun _ => ⟨2⟩) txn (onePerTable txn) := by
    intro txn
    refine ⟨?_, ?_⟩ <;> match txn with
      | ⟨0⟩ => simp [onePerTable]
      | ⟨1⟩ => decide
      | ⟨2⟩ => decide
      | ⟨n + 3⟩ => simp [onePerTable]
  refine ⟨by decide +kernel, by decide +kernel,
    disjoint_transactions_do_not_interfere cramped .empty (Course.opening twoTables) rfl
      (divided_opened cramped .empty twoTables) disjoint
      ⟨by decide, ?_⟩ ⟨by decide, ?_⟩ (room _ (by decide +kernel)) (room _ (by decide +kernel))⟩
  all_goals
    intro txn
    match txn with
    | ⟨0⟩ => rfl
    | ⟨1⟩ => rfl
    | ⟨2⟩ => rfl
    | ⟨n + 3⟩ => simp [onePerTable, numberAWithinB, numberA, numberB, Command.isOf, Command.txn?, Op.txn]

end Session

end RowStore
