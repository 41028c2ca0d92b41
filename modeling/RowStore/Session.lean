import RowStore.Plan.Run
/-!
# Sessions

A session works on one volume: it starts transactions, and it keeps plans and scans that are being
drawn from under names. Reopening it forgets all that is in memory and leaves the files.
-/

namespace RowStore

structure RunningPlan where
  plan : Plan
  cursor : Cursor plan.source

structure Session where
  engine : Engine
  /-- How many transactions have been started. -/
  begun : Nat
  plans : FinMap String RunningPlan
  scans : FinMap String FileScan

abbrev Request := EStateM Fault Session

namespace Session

variable {α : Type}

def start (settings : Settings) : Session := ⟨.start settings .empty, 0, .empty, .empty⟩

def engineAct (act : Action α) : Request α := fun s =>
  match act s.engine with
  | .ok a engine => .ok a { s with engine }
  | .error fault engine => .error fault { s with engine }

def begin : Request TxnId := fun s => .ok ⟨s.begun + 1⟩ { s with begun := s.begun + 1 }

def reopen (settings : Settings) : Request Unit :=
  modify fun s => { start settings with
    engine := .start settings s.engine.volume, begun := s.begun }

/-- Replaces the contents of a file without anything in memory taking notice. -/
def putFile (path : String) (contents : Bytes) : Request Unit := fun s =>
  match s.engine.volume.locate path with
  | .error cause => .error (.file cause) s
  | .ok name => .ok () { s with engine.volume := s.engine.volume.put name contents }

/-! ### Scans -/

def openScan (id : String) (txn : TxnId) (table : TableId) : Request Unit := do
  let entry ← engineAct (Engine.resolve table)
  modify fun s => { s with scans := s.scans.insert id (.start entry.file table txn) }

/-- Does something with a scan, if there is one of that name. -/
def onScan (id : String) (act : Step FileScan α) : Request (Option α) := fun s =>
  match s.scans.get? id with
  | none => .ok none s
  | some scan =>
    match act (scan, s.engine) with
    | .ok a (scan, engine) => .ok (some a) { s with engine, scans := s.scans.insert id scan }
    | .error fault (scan, engine) => .error fault { s with engine, scans := s.scans.insert id scan }

/-! ### Plans -/

/-- A query that cannot become a plan leaves the plan of that name as it was. -/
def openPlan (id : String) (query : Query) : Request Plan := fun s =>
  match Plan.ofQuery s.engine.catalog query with
  | .error fault => .error fault s
  | .ok plan => .ok plan { s with plans := s.plans.insert id ⟨plan, .new plan.source⟩ }

/-- Does something with a plan, if there is one of that name. -/
def onPlan (id : String) (act : {source : Source} → Step (Cursor source) α) :
    Request (Option α) := fun s =>
  match s.plans.get? id with
  | none => .ok none s
  | some ⟨plan, cursor⟩ =>
    match act (cursor, s.engine) with
    | .ok a (cursor, engine) =>
      .ok (some a) { s with engine, plans := s.plans.insert id ⟨plan, cursor⟩ }
    | .error fault (cursor, engine) =>
      .error fault { s with engine, plans := s.plans.insert id ⟨plan, cursor⟩ }

end Session

end RowStore
