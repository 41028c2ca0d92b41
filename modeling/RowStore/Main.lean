import RowStore.Session
/-!
# A demonstration

Loads a table of employees, then asks who earns more than 85 and what each department pays on
average.
-/

namespace RowStore.Main

def columns : Schema :=
  ⟨[⟨some "id", .int⟩, ⟨some "dept", .text 16⟩, ⟨some "salary", .int⟩]⟩

def staff : List (List Value) :=
  [[.int 1, .text "eng", .int 120], [.int 2, .text "sales", .int 80],
    [.int 3, .text "eng", .int 100], [.int 4, .text "ops", .int 70],
    [.int 5, .text "sales", .int 90]]

/-- The schema of the query and its rows, a line each. -/
def answer (query : Query) : Request (List String) := do
  let plan ← Session.openPlan "query" query
  let rows ← Session.onPlan "query" do
    Cursor.start
    Cursor.collect
  return plan.schema.describe :: (rows.getD []).map fun row => s!"  {row.render}"

def demonstration : Request (List String) := do
  let table ← Session.engineAct (Engine.createTable "demo.dat" columns "employees")
  let loader ← Session.begin
  let inserted ← answer (.insert table loader (.rows columns staff))
  Session.engineAct (Engine.commit loader)
  let reader ← Session.begin
  let scan := Query.scan table reader (some "e")
  let wellPaid ← answer (.filter ⟨2, .gt, .int 85⟩ scan)
  let averages ← answer (.aggregate (some 1) 2 .avg scan)
  Session.engineAct (Engine.commit reader)
  return [s!"Table employees is {table.text}", ""] ++ inserted ++ [""] ++ wellPaid ++ [""] ++ averages

def lines : List String :=
  match demonstration (Session.start { poolPages := 10 }) with
  | .ok lines _ => lines
  | .error fault _ => [fault.message]

end RowStore.Main

def main : IO Unit := do
  for line in RowStore.Main.lines do
    IO.println line
