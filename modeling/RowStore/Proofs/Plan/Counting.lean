import RowStore.Proofs.Evaluation
/-!
# Asking for a count

An operator that changes a table does so when somebody asks whether it has a row, or for the row: then it draws all
rows of its child, and its only row says how many there were. So one may ask whether there is a row as often as one
likes before one takes it, and do other things in between that leave alone what the row says.
-/

namespace RowStore

open Engine

namespace Cursor

variable {source : Source} {inner : source.State} {e : Engine}

/-- Where no row has been looked at, it is the source that is asked. -/
theorem pull_ensures {post : Except Fault (Option Row) → source.State × Engine → Prop}
    (fetched : Ensures source.fetch (inner, e) post) :
    Ensures pull ((⟨true, none, inner⟩ : Cursor source), e) fun answer left =>
      ∃ inner', left.1 = ⟨true, none, inner'⟩ ∧ post answer (inner', left.2) := by
  refine .congr (checkOpen_of_open rfl) (.here_bind ?_)
  show Ensures (onInner source.fetch) _ _
  rw [onInner]
  exact Ensures.within_step fetched fun _ after came => ⟨after.1, rfl, came⟩

end Cursor

namespace Source

/-- A row that is drawn from a scan is read under the schema of the scan. -/
theorem pull_ofTable {of : ScanOf} {s : FileScan} {e : Engine}
    {post : Except Fault (Option Row) → FileScan × Engine → Prop} (ensured : Ensures FileScan.next (s, e) post) :
    Ensures Cursor.pull ((⟨true, none, some s⟩ : Cursor (ofTable of)), e) fun answer left =>
      ∃ given scan, answer = given.map (Option.map (·.under of.schema)) ∧ left.1 = ⟨true, none, some scan⟩ ∧
        post given (scan, left.2) := by
  have drawn : Ensures (Step.within (fun _ => s) (fun _ scan => some scan) FileScan.next)
      ((some s : Option FileScan), e) fun answer left => ∃ scan, left.1 = some scan ∧ post answer (scan, left.2) :=
    ensured.within_step fun answer after came => ⟨after.1, rfl, came⟩
  have fetched : Ensures (ofTable of).fetch ((some s : Option FileScan), e) fun answer left =>
      ∃ given scan, answer = given.map (Option.map (·.under of.schema)) ∧ left.1 = some scan ∧
        post given (scan, left.2) := by
    have same : (ofTable of).fetch ((some s : Option FileScan), e) =
        (Step.within (fun _ => s) (fun _ scan => some scan) FileScan.next >>= fun row =>
          pure (row.map (·.under of.schema)) : Step (Option FileScan) (Option Row)) (some s, e) := rfl
    refine .congr same (drawn.bind ?_ ?_)
    · rintro row ⟨_, e'⟩ ⟨scan, rfl, came⟩
      exact .pure ⟨.ok row, scan, rfl, rfl, came⟩
    · rintro fault ⟨_, e'⟩ ⟨scan, rfl, came⟩
      exact ⟨.error fault, scan, rfl, rfl, came⟩
  refine (Cursor.pull_ensures fetched).mono ?_
  rintro answer ⟨_, e'⟩ ⟨_, rfl, given, scan, same, rfl, came⟩
  exact ⟨given, scan, same, rfl, came⟩

namespace Changing

variable {child : Source} {name : String} {act : Row → Action Unit} {ready : Cursor child → Engine → Prop}
  {counts : Row → Engine → Prop} {cur : Cursor (change name act child)} {e : Engine}

/-- The child is ready to give its rows. Or they have been dealt with, and the row with their number has been looked at,
or has been given before. -/
inductive Asked (name : String) (act : Row → Action Unit) (ready : Cursor child → Engine → Prop)
    (counts : Row → Engine → Prop) : Cursor (change name act child) → Engine → Prop
  | started {inner : Cursor child} {e : Engine} : ready inner e →
      Asked name act ready counts ⟨true, none, (⟨inner, false⟩ : Changing child)⟩ e
  | looked {row : Row} {inner : Cursor child} {e : Engine} : counts row e →
      Asked name act ready counts ⟨true, some row, (⟨inner, true⟩ : Changing child)⟩ e
  | spent {inner : Cursor child} {e : Engine} :
      Asked name act ready counts ⟨true, none, (⟨inner, true⟩ : Changing child)⟩ e

theorem Asked.mono {e' : Engine} (asked : Asked name act ready counts cur e)
    (stays : ∀ inner, ready inner e → ready inner e') (tells : ∀ row, counts row e → counts row e') :
    Asked name act ready counts cur e' := by
  cases asked with
  | started here => exact .started (stays _ here)
  | looked known => exact .looked (tells _ known)
  | spent => exact .spent

variable (visited : ∀ inner e, ready inner e → Ensures (visitAll act) ((inner : Cursor child), e) fun answer left =>
  ∀ count row, answer = .ok count → countRow name count = .ok row → counts row left.2)

include visited

/-- Whoever asks for the row gets one that says how many there were, unless something has failed or he has had it. -/
theorem pull_asked (asked : Asked name act ready counts cur e) : Ensures Cursor.pull (cur, e) fun
    | .ok (some row), left => (∃ inner, left.1 = ⟨true, none, (⟨inner, true⟩ : Changing child)⟩) ∧ counts row left.2
    | .ok none, left => ∃ inner, left.1 = ⟨true, none, (⟨inner, true⟩ : Changing child)⟩
    | .error _, _ => True := by
  cases asked with
  | @looked row inner e known => exact .congr (Cursor.checkOpen_of_open rfl) (.here_bind ⟨⟨inner, rfl⟩, known⟩)
  | @spent inner e =>
    have fetched : Ensures (change name act child).fetch ((⟨inner, true⟩ : Changing child), e) fun answer left =>
        answer = .ok none ∧ left.1 = (⟨inner, true⟩ : Changing child) := ⟨rfl, rfl⟩
    refine (Cursor.pull_ensures fetched).mono ?_
    rintro answer ⟨_, e'⟩ ⟨_, rfl, rfl, rfl⟩
    exact ⟨inner, rfl⟩
  | @started inner e here =>
    have fetched : Ensures (change name act child).fetch ((⟨inner, false⟩ : Changing child), e) fun
        | .ok answer, left => ∃ row inner', answer = some row ∧ left.1 = (⟨inner', true⟩ : Changing child) ∧
            counts row left.2
        | .error _, _ => True := by
      refine change_ensures name rfl (visited inner e here) ?_ fun _ _ _ => trivial
      intro count after tells
      cases counted : countRow name count with
      | error fault => trivial
      | ok row => exact ⟨row, after.1, rfl, rfl, tells count row rfl counted⟩
    refine (Cursor.pull_ensures fetched).mono ?_
    rintro (fault | answer) ⟨_, e'⟩ ⟨_, rfl, came⟩
    · trivial
    · obtain ⟨row, inner', rfl, rfl, tells⟩ := came
      exact ⟨⟨inner', rfl⟩, tells⟩

theorem hasNext_asked (asked : Asked name act ready counts cur e) : Ensures Use.hasNext.act (cur, e) fun reply left =>
    Reply.fault? reply = none → Asked name act ready counts left.1 left.2 := by
  have looked : Ensures Cursor.hasNext (cur, e) fun
      | .ok _, left => Asked name act ready counts left.1 left.2
      | .error _, _ => True := by
    refine (pull_asked visited asked).bind ?_ fun _ _ _ => trivial
    rintro (_ | row) ⟨cur', e'⟩ came
    · obtain ⟨inner, rfl⟩ := came
      exact .spent
    · obtain ⟨⟨inner, rfl⟩, tells⟩ := came
      exact .looked tells
  exact looked.bind (fun _ _ asked' _ => asked') fun _ _ _ fair => absurd fair (by simp [Reply.fault?])

theorem next_asked (asked : Asked name act ready counts cur e) : Ensures Use.next.act (cur, e) fun reply left =>
    ∀ row, reply = .ok (.row (some row)) → counts row left.2 := by
  have given : Ensures Cursor.next (cur, e) fun
      | .ok row, left => counts row left.2
      | .error _, _ => True := by
    refine (pull_asked visited asked).bind ?_ fun _ _ _ => trivial
    rintro (_ | row) left came
    · trivial
    · exact .pure came.2
  refine given.bind ?_ fun _ _ _ row same => absurd same (by simp)
  rintro row left tells _ same
  cases same
  exact tells

end Changing

end Source

/-! ### Sessions -/

namespace Session

variable {s : Session} {id : String} {plan : Plan} {cursor : Cursor plan.source}
  {asked : Cursor plan.source → Engine → Prop} {counts : Row → Engine → Prop} {between : List Command}

theorem replies_append (s : Session) (id : String) (first later : List Command) :
    s.replies id (first ++ later) = s.replies id first ++ (s.after first).replies id later := by
  induction first generalizing s with
  | nil => rfl
  | cons command rest ih =>
    simp only [List.cons_append, replies, ih]
    cases (command.useOf? id).isSome <;> rfl

/-- One looks whether there is a row, or does something else that leaves alone what is asked. -/
def Bides (id : String) (asked : Cursor plan.source → Engine → Prop) (command : Command) : Prop :=
  command = .usePlan id .hasNext ∨ (command.useOf? id = none ∧ command.spares id = true ∧
    ∀ cursor s, asked cursor s.engine → asked cursor (outcome command.run s).2.engine)

variable (looks : ∀ cursor e, asked cursor e → Ensures Use.hasNext.act (cursor, e) fun reply left =>
    Reply.fault? reply = none → asked left.1 left.2)

include looks

theorem asked_after (here : s.plans.get? id = some ⟨plan, cursor⟩) (asks : asked cursor s.engine)
    (bide : ∀ command ∈ between, Bides id asked command)
    (fair : ∀ reply ∈ s.replies id between, Reply.fault? reply = none) :
    ∃ cursor', (s.after between).plans.get? id = some ⟨plan, cursor'⟩ ∧ asked cursor' (s.after between).engine := by
  induction between generalizing s cursor with
  | nil => exact ⟨cursor, here, asks⟩
  | cons command rest ih =>
    have later : ∀ other ∈ rest, Bides id asked other := fun other among => bide other (List.mem_cons_of_mem _ among)
    rcases bide command List.mem_cons_self with rfl | ⟨other, spares, stays⟩
    · rw [replies_usePlan] at fair
      obtain ⟨cursor', here', asks'⟩ := (run_usePlan here (looks cursor s.engine asks)).outcome
      exact ih here' (asks' (fair _ List.mem_cons_self)) later fun reply among =>
        fair reply (List.mem_cons_of_mem _ among)
    · have plans := (run_plans (s := s) spares other).outcome
      rw [replies, other] at fair
      exact ih (plans.trans here) (stays cursor s asks) later fair

/-- The row that is given in the end says what it should. -/
theorem counts_of_replies (here : s.plans.get? id = some ⟨plan, cursor⟩) (asks : asked cursor s.engine)
    (gives : ∀ cursor e, asked cursor e → Ensures Use.next.act (cursor, e) fun reply left =>
      ∀ row, reply = .ok (.row (some row)) → counts row left.2)
    (bide : ∀ command ∈ between, Bides id asked command) {row : Row}
    (fair : ∀ reply ∈ s.replies id (between ++ [.usePlan id .next]), Reply.fault? reply = none)
    (last : (s.replies id (between ++ [.usePlan id .next])).getLast? = some (.ok (.row (some row)))) :
    counts row (s.after (between ++ [.usePlan id .next])).engine := by
  rw [replies_append] at fair last
  obtain ⟨cursor', here', asks'⟩ := asked_after looks here asks bide fun reply among =>
    fair reply (List.mem_append_left _ among)
  obtain ⟨cursor'', -, tells⟩ := (run_usePlan here' (gives cursor' _ asks')).outcome
  rw [replies_usePlan, replies, List.getLast?_concat] at last
  have after : s.after (between ++ [.usePlan id .next]) =
      (outcome (Command.usePlan id .next).run (s.after between)).2 := by
    rw [Session.after, List.foldl_append]
    rfl
  rw [after]
  exact tells row (Option.some.inj last)

end Session

end RowStore
