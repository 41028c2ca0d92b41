import RowStore.Proofs.Filling
import RowStore.Proofs.Resuming
/-!
# Rows that cannot be put in

A plan that puts in the rows of its child knows how many there were only as long as one call lasts. If all goes
well each of them is put in once, however often the plan is started and asked. But a call that fails has lost the
count of the rows before, and the row that it could not put in as well, and to start the plan again then puts rows
in that are there already.
-/

namespace RowStore

open Engine

/-! ### What is told of a plan that puts rows in -/

/-- Why a call has not come to its end: after so many rows the next could not be put in, and is lost, or the child
was refused it. -/
structure Stop where
  count : Nat
  lost : Bool
  fault : Fault

/-- Whether all rows have been put in, the row with their number if it was only looked at, and the rows that are
still to come from the child, if the plan is open. -/
structure Progress where
  done : Bool
  ahead : Option Row
  place : Option (List Row)

/-- What a call answers, the rows that it puts in, and where it leaves the plan. -/
structure Telling (α : Type) where
  answer : Except Fault α
  put : List Row
  left : Progress

def Use.opens : Use → Bool
  | .start => true
  | .rewind => true
  | _ => false

/-- All rows have been put in, and the reply is the row with their number or that there is one. -/
def Reply.counts : Except Fault Reply → Bool
  | .ok (.more true) => true
  | .ok (.row (some _)) => true
  | _ => false

namespace Progress

def unopened : Progress := ⟨false, none, none⟩

/-- Where the plan is asked for a row. -/
def pulled (name : String) (stop : Option Stop) (p : Progress) : Telling (Option Row) :=
  match p.place with
  | none => ⟨.error .notOpen, [], p⟩
  | some rest =>
    match p.ahead, p.done, stop with
    | some row, _, _ => ⟨.ok (some row), [], { p with ahead := none }⟩
    | none, true, _ => ⟨.ok none, [], p⟩
    | none, false, none => ⟨(Source.countRow name rest.length).map some, rest, ⟨true, none, some []⟩⟩
    | none, false, some stop =>
      ⟨.error stop.fault, rest.take stop.count, ⟨false, none, some (rest.drop (stop.count + stop.lost.toNat))⟩⟩

/-- What is told of a call on a plan whose child has these rows, and that does not come to its end if there is a
stop. -/
def told (name : String) (rows : List Row) (p : Progress) (stop : Option Stop) : Use → Telling Reply
  | .start => ⟨.ok .done, [], ⟨p.done, none, some rows⟩⟩
  | .rewind => ⟨.ok .done, [], ⟨p.done, none, some rows⟩⟩
  | .close => ⟨.ok .done, [], ⟨p.done, none, none⟩⟩
  | .hasNext =>
    let asked := p.pulled name stop
    match asked.answer with
    | .ok row => ⟨.ok (.more row.isSome), asked.put, { asked.left with ahead := row }⟩
    | .error fault => ⟨.error fault, asked.put, asked.left⟩
  | .next =>
    let asked := p.pulled name stop
    match asked.answer with
    | .ok (some row) => ⟨.ok (.row (some row)), asked.put, asked.left⟩
    | .ok none => ⟨.error .noMoreRows, asked.put, asked.left⟩
    | .error fault => ⟨.error fault, asked.put, asked.left⟩
  | _ => ⟨.ok .done, [], p⟩

def tellings (name : String) (rows : List Row) : Progress → List (Use × Option Stop) → List (Use × Telling Reply)
  | _, [] => []
  | p, (use, stop) :: rest =>
    (use, p.told name rows stop use) :: (p.told name rows stop use).left.tellings name rows rest

/-- What there is to look at has been made, and the rows still to come are the last ones. -/
structure Sound (rows : List Row) (p : Progress) : Prop where
  ahead : p.ahead.isSome → p.done = true
  place : ∀ rest, p.place = some rest → rest <:+ rows

theorem sound_unopened (rows : List Row) : unopened.Sound rows where
  ahead some := absurd some (by simp [unopened])
  place rest same := absurd same (by simp [unopened])

/-- What a call can do: start the plan, nothing that matters, put in all rows that are still to come, or stop
among them. -/
inductive Goes (name : String) (rows : List Row) (p : Progress) (stop : Option Stop) (use : Use) :
    Telling Reply → Prop
  | started : use.opens = true → Goes name rows p stop use ⟨.ok .done, [], ⟨p.done, none, some rows⟩⟩
  | quiet {telling} : telling.put = [] → telling.left.done = p.done →
      (∀ rest, telling.left.place = some rest → p.place = some rest) →
      (∀ row, telling.left.ahead = some row → p.ahead = some row) →
      (Reply.counts telling.answer = true → p.ahead.isSome) →
      (∀ row, telling.answer = .ok (.row (some row)) → p.ahead = some row) → Goes name rows p stop use telling
  | whole {telling rest} : p.done = false → p.ahead = none → p.place = some rest → telling.put = rest →
      telling.left.done = true → telling.left.place = some [] →
      (∀ row, telling.left.ahead = some row → Source.countRow name rest.length = .ok row) →
      (∀ row, telling.answer = .ok (.row (some row)) → Source.countRow name rest.length = .ok row) →
      Goes name rows p stop use telling
  | stopped {rest halt} : p.done = false → p.ahead = none → p.place = some rest → stop = some halt →
      Goes name rows p stop use
        ⟨.error halt.fault, rest.take halt.count, ⟨false, none, some (rest.drop (halt.count + halt.lost.toNat))⟩⟩

section

variable {name : String} {rows : List Row} {p : Progress} {stop : Option Stop} {use : Use}

theorem told_goes : Goes name rows p stop use (p.told name rows stop use) := by
  cases use with
  | start | rewind => exact .started rfl
  | close => exact .quiet rfl rfl (by simp [told]) (by simp [told]) (by simp [told, Reply.counts]) (by simp [told])
  | fetch | take | collect =>
    exact .quiet rfl rfl (fun _ => id) (fun _ => id) (by simp [told, Reply.counts]) (by simp [told])
  | hasNext | next =>
    obtain ⟨done, ahead, place⟩ := p
    cases place with
    | none =>
      exact .quiet rfl rfl (fun _ => id) (fun _ => id) (by simp [told, pulled, Reply.counts]) (by simp [told, pulled])
    | some rest =>
      cases ahead with
      | some row => exact .quiet rfl rfl (fun _ => id) (by simp [told, pulled]) (fun _ => rfl) (by simp [told, pulled])
      | none =>
        cases done with
        | true =>
          exact .quiet rfl rfl (fun _ => id) (by simp [told, pulled]) (by simp [told, pulled, Reply.counts])
            (by simp [told, pulled])
        | false =>
          cases stop with
          | some halt => exact .stopped rfl rfl rfl rfl
          | none =>
            cases counted : Source.countRow name rest.length with
            | error fault =>
              refine .whole rfl rfl rfl ?_ ?_ ?_ ?_ ?_ <;> simp [told, pulled, counted, Except.map]
            | ok row =>
              refine .whole rfl rfl rfl ?_ ?_ ?_ ?_ ?_ <;> simp [told, pulled, counted, Except.map]

/-- Once all rows have been put in, nothing is put in and there is nothing new to look at. -/
theorem Goes.of_done {telling : Telling Reply} (goes : Goes name rows p stop use telling) (done : p.done = true) :
    telling.put = [] ∧ telling.left.done = true ∧ (∀ row, telling.left.ahead = some row → p.ahead = some row) ∧
      ∀ row, telling.answer = .ok (.row (some row)) → p.ahead = some row := by
  cases goes with
  | started opens => exact ⟨rfl, done, by simp, by simp⟩
  | quiet put same place ahead counts given => exact ⟨put, same.trans done, ahead, given⟩
  | whole undone => exact absurd (done.symm.trans undone) (by simp)
  | stopped undone => exact absurd (done.symm.trans undone) (by simp)

theorem Goes.sound_left {telling : Telling Reply} (goes : Goes name rows p stop use telling) (sound : p.Sound rows) :
    telling.left.Sound rows := by
  cases goes with
  | started opens =>
    refine ⟨by simp, ?_⟩
    rintro rest ⟨⟩
    exact List.suffix_refl rows
  | quiet put same place ahead counts given =>
    refine ⟨?_, ?_⟩
    · intro looked
      obtain ⟨row, here⟩ := Option.isSome_iff_exists.mp looked
      rw [same]
      exact sound.ahead (Option.isSome_iff_exists.mpr ⟨row, ahead row here⟩)
    · exact fun rest here => sound.place rest (place rest here)
  | whole undone bare here put done place ahead given =>
    refine ⟨fun _ => done, ?_⟩
    intro rest later
    cases place.symm.trans later
    exact List.nil_suffix
  | @stopped rest halt undone bare here same =>
    refine ⟨by simp, ?_⟩
    rintro later ⟨⟩
    exact (List.drop_suffix _ rest).trans (sound.place rest here)

/-- Whoever is told that there is the row with the number is told that all rows have been put in. -/
theorem Goes.done_of_counts {telling : Telling Reply} (goes : Goes name rows p stop use telling) (sound : p.Sound rows)
    (counted : Reply.counts telling.answer = true) : telling.left.done = true := by
  cases goes with
  | started opens => exact absurd counted (by simp [Reply.counts])
  | quiet put same place ahead counts given => exact same.trans (sound.ahead (counts counted))
  | whole undone bare here put done place ahead given => exact done
  | stopped undone bare here same => exact absurd counted (by simp [Reply.counts])

theorem put_of_done (done : p.done = true) (calls : List (Use × Option Stop)) :
    ∀ answered ∈ p.tellings name rows calls, answered.2.put = [] := by
  induction calls generalizing p with
  | nil => simp [tellings]
  | cons call rest ih =>
    have goes : Goes name rows p call.2 call.1 _ := told_goes
    obtain ⟨put, done', -⟩ := goes.of_done done
    rw [tellings, List.forall_mem_cons]
    exact ⟨put, ih done'⟩

theorem flatMap_put_of_done (done : p.done = true) (calls : List (Use × Option Stop)) :
    ((p.tellings name rows calls).flatMap fun answered => answered.2.put) = [] :=
  List.flatMap_eq_nil_iff.mpr (put_of_done done calls)

/-- Once there is the row with the number, nothing more is put in. -/
theorem pairwise_put (sound : p.Sound rows) (calls : List (Use × Option Stop)) :
    (p.tellings name rows calls).Pairwise fun a b => Reply.counts a.2.answer = true → b.2.put = [] := by
  induction calls generalizing p with
  | nil => exact .nil
  | cons call rest ih =>
    have goes : Goes name rows p call.2 call.1 _ := told_goes
    rw [tellings]
    refine .cons ?_ (ih (goes.sound_left sound))
    intro later among counted
    exact put_of_done (goes.done_of_counts sound counted) rest later among

variable {calls : List (Use × Option Stop)}
  (fails : ∀ call ∈ calls, ∀ halt, call.2 = some halt → Reply.isFailure (.error halt.fault) = true)

include fails

/-- Where the plan is not started again after a call that failed, no row is put in twice. -/
theorem sublist_put {due : List Row} (still : ∀ rest, p.place = some rest → rest.Sublist due)
    (again : (∃ answered ∈ p.tellings name rows calls, answered.1.opens = true) → rows.Sublist due)
    (heeded : (p.tellings name rows calls).Pairwise fun a b => Reply.isFailure a.2.answer = true → b.1.opens = false) :
    ((p.tellings name rows calls).flatMap fun answered => answered.2.put).Sublist due := by
  induction calls generalizing p due with
  | nil => exact List.nil_sublist due
  | cons call rest ih =>
    have goes : Goes name rows p call.2 call.1 _ := told_goes
    have fails' := fun call later => fails call (List.mem_cons_of_mem _ later)
    rw [tellings] at again heeded ⊢
    obtain ⟨first, heeded'⟩ := List.pairwise_cons.mp heeded
    have again' : (∃ answered ∈ (p.told name rows call.2 call.1).left.tellings name rows rest,
        answered.1.opens = true) → rows.Sublist due :=
      fun ⟨answered, among, opens⟩ => again ⟨answered, List.mem_cons_of_mem _ among, opens⟩
    rw [List.flatMap_cons]
    generalize p.told name rows call.2 call.1 = telling at goes again again' heeded' first ⊢
    cases goes with
    | started opens =>
      refine ih fails' ?_ again' heeded'
      rintro later ⟨⟩
      exact again ⟨_, List.mem_cons_self, opens⟩
    | quiet put same place ahead counts given =>
      rw [put, List.nil_append]
      exact ih fails' (fun later here => still later (place later here)) again' heeded'
    | whole undone bare here put done place ahead given =>
      rw [put, flatMap_put_of_done done, List.append_nil]
      exact still _ here
    | @stopped all halt undone bare here same =>
      have failed := fails call List.mem_cons_self halt same
      -- what is put in from now on is of the rows after those that have been
      have later : (List.flatMap _ _).Sublist (all.drop halt.count) := ih fails' ?_ ?_ heeded'
      · have split := (List.Sublist.refl (all.take halt.count)).append later
        rw [List.take_append_drop] at split
        exact split.trans (still all here)
      · rintro left ⟨⟩
        rw [← List.drop_drop]
        exact List.drop_sublist ..
      · rintro ⟨answered, among, opens⟩
        exact absurd opens (by simp [first answered among failed])

end

section

variable {name : String} {rows : List Row} {p : Progress}

/-- What there was to look at when all rows had been put in is all that there is to give. -/
theorem given_of_done (done : p.done = true) (calls : List (Use × Option Stop)) :
    ∀ answered ∈ p.tellings name rows calls, ∀ row, answered.2.answer = .ok (.row (some row)) → p.ahead = some row := by
  induction calls generalizing p with
  | nil => simp [tellings]
  | cons call rest ih =>
    have goes : Goes name rows p call.2 call.1 _ := told_goes
    obtain ⟨-, done', ahead, given⟩ := goes.of_done done
    rw [tellings, List.forall_mem_cons]
    exact ⟨given, fun answered among row same => ahead row (ih done' answered among row same)⟩

theorem Goes.ahead_or_counts {stop : Option Stop} {use : Use} {telling : Telling Reply}
    (goes : Goes name rows p stop use telling) (sound : p.Sound rows) {row : Row}
    (offers : telling.answer = .ok (.row (some row)) ∨ telling.left.ahead = some row) :
    p.ahead = some row ∨ telling.put <:+ rows ∧ Source.countRow name telling.put.length = .ok row := by
  cases goes with
  | started opens => exact absurd offers (by simp)
  | quiet put same place ahead counts given => exact .inl (offers.elim (given row) (ahead row))
  | whole undone bare here put done place ahead given =>
    rw [put]
    exact .inr ⟨sound.place _ here, offers.elim (given row) (ahead row)⟩
  | stopped undone bare here same => exact absurd offers (by simp)

/-- The row with the number was to be looked at, or is made in a call that puts in that many rows, the last ones. -/
theorem put_of_given (sound : p.Sound rows) (calls : List (Use × Option Stop)) :
    ∀ answered ∈ p.tellings name rows calls, ∀ row, answered.2.answer = .ok (.row (some row)) →
      p.ahead = some row ∨ ∃ made ∈ p.tellings name rows calls,
        made.2.put <:+ rows ∧ Source.countRow name made.2.put.length = .ok row := by
  induction calls generalizing p with
  | nil => simp [tellings]
  | cons call rest ih =>
    have goes : Goes name rows p call.2 call.1 _ := told_goes
    have made : ∀ row, (p.told name rows call.2 call.1).answer = .ok (.row (some row)) ∨
        (p.told name rows call.2 call.1).left.ahead = some row → p.ahead = some row ∨
          ∃ made ∈ p.tellings name rows (call :: rest),
            made.2.put <:+ rows ∧ Source.countRow name made.2.put.length = .ok row :=
      fun row offers => (goes.ahead_or_counts sound offers).imp_right fun counted => ⟨_, List.mem_cons_self, counted⟩
    intro answered among row same
    rcases List.mem_cons.mp among with rfl | later
    · exact made row (.inl same)
    · rcases ih (goes.sound_left sound) answered later row same with looked | ⟨maker, there, counted⟩
      · exact made row (.inr looked)
      · exact .inr ⟨maker, List.mem_cons_of_mem _ there, counted⟩

/-- Where no call fails, whoever sees the row with the number sees that of all rows, which have been put in once. -/
theorem put_of_smooth (undone : p.done = false) (bare : p.ahead = none)
    (fresh : ∀ rest, p.place = some rest → rest = rows) {calls : List (Use × Option Stop)}
    (fails : ∀ call ∈ calls, ∀ halt, call.2 = some halt → Reply.isFailure (.error halt.fault) = true)
    (smooth : ∀ answered ∈ p.tellings name rows calls, Reply.isFailure answered.2.answer = false) :
    ∀ answered ∈ p.tellings name rows calls, Reply.counts answered.2.answer = true →
      ((p.tellings name rows calls).flatMap fun answered => answered.2.put) = rows ∧
        ∀ row, answered.2.answer = .ok (.row (some row)) → Source.countRow name rows.length = .ok row := by
  induction calls generalizing p with
  | nil => simp [tellings]
  | cons call rest ih =>
    have goes : Goes name rows p call.2 call.1 _ := told_goes
    have fails' := fun call later => fails call (List.mem_cons_of_mem _ later)
    rw [tellings] at smooth ⊢
    obtain ⟨first, smooth'⟩ := List.forall_mem_cons.mp smooth
    rw [List.flatMap_cons, List.forall_mem_cons]
    generalize p.told name rows call.2 call.1 = telling at goes first smooth' ⊢
    cases goes with
    | started opens =>
      refine ⟨fun counted => absurd counted (by simp [Reply.counts]), ih undone rfl ?_ fails' smooth'⟩
      rintro later ⟨⟩
      rfl
    | quiet put same place ahead counts given =>
      rw [put, List.nil_append]
      have bare' : telling.left.ahead = none := by
        cases looked : telling.left.ahead with
        | none => rfl
        | some row => exact absurd (bare.symm.trans (ahead row looked)) (by simp)
      exact ⟨fun counted => absurd (counts counted) (by simp [bare]),
        ih (same.trans undone) bare' (fun later here => fresh later (place later here)) fails' smooth'⟩
    | @whole _ all undone bare here put done place ahead given =>
      obtain rfl := fresh all here
      rw [put, flatMap_put_of_done done, List.append_nil]
      refine ⟨fun _ => ⟨rfl, given⟩, ?_⟩
      intro answered later counted
      exact ⟨rfl, fun row same => ahead row (given_of_done done rest answered later row same)⟩
    | @stopped all halt undone bare here same =>
      exact absurd (fails call List.mem_cons_self halt same) (by simp [first])

end

end Progress

def Cursor.engines {source : Source} (cur : Cursor source) (calls : List (Engine × Use)) : List (Engine × Engine) :=
  (calls.map Prod.fst).zip ((cur.outcomes calls).map Prod.snd)

/-! ### Putting rows in -/

/-- These rows are there after, each at a place, and what was there before. -/
def Gained (rows : List Row) (before after : List (RowId × List Value)) : Prop :=
  ∃ added, added.map Prod.snd = rows.map Row.values ∧ after.Perm (added ++ before)

theorem Gained.refl (entries : List (RowId × List Value)) : Gained [] entries entries := ⟨[], rfl, .refl _⟩

theorem Gained.trans {rows rows' : List Row} {before between after : List (RowId × List Value)}
    (first : Gained rows before between) (second : Gained rows' between after) :
    Gained (rows ++ rows') before after := by
  obtain ⟨added, values, perm⟩ := first
  obtain ⟨added', values', perm'⟩ := second
  refine ⟨added ++ added', by rw [List.map_append, List.map_append, values, values'], perm'.trans ?_⟩
  calc added' ++ _
    _ |>.Perm (added' ++ (added ++ before)) := perm.append_left added'
    _ |>.Perm (added' ++ added ++ before) := by rw [List.append_assoc]
    _ |>.Perm (added ++ added' ++ before) := List.perm_append_comm.append_right before

/-- Wherever the condition holds of the engine, each of the rows is put into the table in this way or for one of
those faults it is not, and the condition holds then. -/
def Puts (put : Row → Action Unit) (shows : Engine → Prop) (faults : Fault → Prop) (table : TableId)
    (entry : TableEntry) (rows : List Row) : Prop :=
  ∀ row ∈ rows, ∀ e, shows e → Ensures (put row) e fun
    | .ok _, e' => shows e' ∧ Gained [row] (e.rowMap table entry).entries (e'.rowMap table entry).entries
    | .error fault, e' => shows e' ∧ faults fault ∧ (e'.rowMap table entry).entries = (e.rowMap table entry).entries

/-- Wherever the condition holds, the child gives these rows and leaves the table alone. -/
def Source.Feeds (child : Source) (shows : Engine → Prop) (faults : Fault → Prop) (table : TableId)
    (entry : TableEntry) (rows : List Row) (still : List Row → child.State → Prop) : Prop :=
  ∀ held, child.Answers (fun e => shows e ∧ (e.rowMap table entry).entries = held) (fun fault _ => faults fault) True
    rows still

section

variable {child : Source} {shows : Engine → Prop} {faults : Fault → Prop} {table : TableId} {entry : TableEntry}
  {rows rest : List Row} {still : List Row → child.State → Prop} {put : Row → Action Unit} {cur : Cursor child}
  {e : Engine}

/-- All rows that were still to come have been put in, or some of them and then there was a stop. -/
def Drained (shows : Engine → Prop) (faults : Fault → Prop) (table : TableId) (entry : TableEntry)
    (still : List Row → child.State → Prop) (rest : List Row) (said : Nat) (e : Engine) (answer : Except Fault Nat)
    (after : Cursor child × Engine) : Prop :=
  shows after.2 ∧
    (answer = .ok said ∧ after.1.Draws still [] ∧
        Gained rest (e.rowMap table entry).entries (after.2.rowMap table entry).entries ∨
      ∃ halt : Stop, answer = .error halt.fault ∧ faults halt.fault ∧
        after.1.Draws still (rest.drop (halt.count + halt.lost.toNat)) ∧
        Gained (rest.take halt.count) (e.rowMap table entry).entries (after.2.rowMap table entry).entries)

theorem Drained.cons {row : Row} {count : Nat} {e' : Engine} {answer : Except Fault Nat} {after : Cursor child × Engine}
    (gained : Gained [row] (e.rowMap table entry).entries (e'.rowMap table entry).entries)
    (drained : Drained shows faults table entry still rest (count + 1 + rest.length) e' answer after) :
    Drained shows faults table entry still (row :: rest) (count + (row :: rest).length) e answer after := by
  obtain ⟨shown, ⟨rfl, draws, more⟩ | ⟨halt, rfl, given, draws, more⟩⟩ := drained
  · refine ⟨shown, .inl ⟨?_, draws, gained.trans more⟩⟩
    rw [List.length_cons, Nat.add_assoc, Nat.add_comm 1]
  · refine ⟨shown, .inr ⟨⟨halt.count + 1, halt.lost, halt.fault⟩, rfl, given, ?_, gained.trans more⟩⟩
    rw [Nat.add_right_comm]
    exact draws

variable (feeds : child.Feeds shows faults table entry rows still) (puts : Puts put shows faults table entry rows)

include feeds puts

theorem drain_puts (turns count : Nat) (shown : shows e) (draws : cur.Draws still rest)
    (among : ∀ row ∈ rest, row ∈ rows) (enough : faults .poolFull ∨ rest.length < turns) :
    Ensures (Cursor.drain (Source.Changing.visit put) turns count) (cur, e)
      (Drained shows faults table entry still rest (count + rest.length) e) := by
  induction turns generalizing cur e rest count with
  | zero =>
    have full := enough.resolve_right (Nat.not_lt_zero _)
    exact ⟨shown, .inr ⟨⟨0, false, .poolFull⟩, rfl, full, draws, .refl _⟩⟩
  | succ turns ih =>
    refine (Cursor.pull_draws (feeds _) ⟨shown, rfl⟩ draws).bind ?_ ?_
    · rintro answer ⟨cur', e'⟩ ⟨⟨shown', held⟩, ⟨⟨⟩, draws'⟩ | ⟨⟨_, other, -⟩, -⟩⟩
      · cases rest with
        | nil =>
          refine ⟨shown', .inl ⟨rfl, draws', ?_⟩⟩
          rw [held]
          exact .refl _
        | cons row later =>
          have visited : Ensures (Source.Changing.visit put count row) e' fun
              | .ok count', e'' => count' = count + 1 ∧ shows e'' ∧
                  Gained [row] (e.rowMap table entry).entries (e''.rowMap table entry).entries
              | .error fault, e'' => shows e'' ∧ faults fault ∧
                  (e''.rowMap table entry).entries = (e.rowMap table entry).entries := by
            have inserted := puts row (among row List.mem_cons_self) e' shown'
            rw [held] at inserted
            exact inserted.bind (fun _ _ gained => ⟨rfl, gained⟩) fun _ _ failed => failed
          refine visited.engine_step.bind ?_ ?_
          · rintro _ ⟨_, e''⟩ ⟨rfl, rfl, shown'', gained⟩
            exact (ih (count + 1) shown'' draws' (fun row later => among row (List.mem_cons_of_mem _ later))
              (enough.imp_right Nat.lt_of_succ_lt_succ)).mono fun _ _ drained => drained.cons gained
          · rintro fault ⟨_, e''⟩ ⟨rfl, shown'', given, same⟩
            refine ⟨shown'', .inr ⟨⟨0, true, fault⟩, rfl, given, draws', ?_⟩⟩
            rw [same]
            exact .refl _
      · exact absurd other (by simp)
    · rintro fault ⟨cur', e'⟩ ⟨⟨shown', held⟩, ⟨other, -⟩ | ⟨⟨_, ⟨⟩, given⟩, stays⟩⟩
      · exact absurd other (by simp)
      · refine ⟨shown', .inr ⟨⟨0, false, fault⟩, rfl, given, stays trivial, ?_⟩⟩
        rw [held]
        exact .refl _

/-- A cursor has turns enough to draw all rows that are still to come. -/
theorem visitAll_puts (shown : shows e) (draws : cur.Draws still rest) (among : ∀ row ∈ rest, row ∈ rows) :
    Ensures (Source.Changing.visitAll put) (cur, e) (Drained shows faults table entry still rest rest.length e) := by
  have enough := (Cursor.enough_turns (feeds _) ⟨shown, rfl⟩ draws.to_awaits).imp_left
    fun (full : ∀ e', _ → faults .poolFull) => full e ⟨shown, rfl⟩
  have drained := drain_puts feeds puts _ 0 shown draws among enough
  rw [Nat.zero_add] at drained
  exact .congr (Source.Changing.visitAll_eq ..) drained

/-- What a change that is not done does when it is asked for its row. -/
theorem fetch_puts (name : String) {s : Source.Changing child} (undone : s.done = false) (shown : shows e)
    (draws : s.child.Draws still rest) (among : ∀ row ∈ rest, row ∈ rows) :
    Ensures (Source.change name put child).fetch (s, e) fun answer after => shows after.2 ∧
      (answer = (Source.countRow name rest.length).map some ∧ after.1.done = true ∧ after.1.child.Draws still [] ∧
          Gained rest (e.rowMap table entry).entries (after.2.rowMap table entry).entries ∨
        ∃ halt : Stop, answer = .error halt.fault ∧ faults halt.fault ∧ after.1.done = false ∧
          after.1.child.Draws still (rest.drop (halt.count + halt.lost.toNat)) ∧
          Gained (rest.take halt.count) (e.rowMap table entry).entries (after.2.rowMap table entry).entries) := by
  refine Source.change_ensures name undone (visitAll_puts feeds puts shown draws among) ?_ ?_
  · rintro _ ⟨cur, e'⟩ ⟨shown', ⟨⟨⟩, draws', gained⟩ | ⟨halt, other, -⟩⟩
    · exact ⟨shown', .inl ⟨rfl, rfl, draws', gained⟩⟩
    · exact absurd other (by simp)
  · rintro fault ⟨cur, e'⟩ ⟨shown', ⟨other, -⟩ | ⟨halt, ⟨⟩, given, draws', gained⟩⟩
    · exact absurd other (by simp)
    · exact ⟨shown', .inr ⟨halt, rfl, given, rfl, draws', gained⟩⟩

end

/-! ### Calls -/

namespace Progress

variable {name : String} {child : Source} {shows : Engine → Prop} {faults : Fault → Prop} {table : TableId}
  {entry : TableEntry} {rows : List Row} {still : List Row → child.State → Prop} {put : Row → Action Unit}
  {cur : Cursor (Source.change name put child)} {p : Progress} {e : Engine} {α : Type}

/-- The plan is where its progress says. -/
structure Stands (still : List Row → child.State → Prop) (rows : List Row) (p : Progress)
    (cur : Cursor (Source.change name put child)) : Prop where
  isOpen : cur.isOpen = p.place.isSome
  ahead : cur.ahead = p.ahead
  done : Source.Changing.done cur.inner = p.done
  child : ∀ rest, p.place = some rest → (Source.Changing.child cur.inner).Draws still rest ∧ rest <:+ rows

theorem stands_new : unopened.Stands still rows (Cursor.new (Source.change name put child)) where
  isOpen := rfl
  ahead := rfl
  done := rfl
  child rest same := absurd same (by simp [unopened])

/-- The answer is that of the telling, and the table and the plan have changed as it says. -/
structure Follows (shows : Engine → Prop) (table : TableId) (entry : TableEntry) (still : List Row → child.State → Prop)
    (rows : List Row) (e : Engine) (telling : Telling α) (answer : Except Fault α)
    (after : Cursor (Source.change name put child) × Engine) : Prop where
  shown : shows after.2
  answer : answer = telling.answer
  stands : telling.left.Stands still rows after.1
  gained : Gained telling.put (e.rowMap table entry).entries (after.2.rowMap table entry).entries

/-- If the call has come to a stop, it is for one of the faults. -/
def Halts (faults : Fault → Prop) (stop : Option Stop) : Prop := ∀ halt, stop = some halt → faults halt.fault

theorem halts_none : Halts faults none := by simp [Halts]

variable (feeds : child.Feeds shows faults table entry rows still) (shown : shows e)

include feeds shown

theorem start_follows (made : Source.Changing.done cur.inner = p.done) :
    Ensures Use.start.act (cur, e) fun reply after => Follows shows table entry still rows e (p.told name rows none .start) reply after := by
  have inner : Ensures (Source.Changing.onChild Cursor.start) (cur.inner, e) fun answer after => answer = .ok () ∧
      shows after.2 ∧ (after.2.rowMap table entry).entries = (e.rowMap table entry).entries ∧
        Source.Changing.done after.1 = p.done ∧ (Source.Changing.child after.1).Draws still rows := by
    refine (Cursor.start_plain (feeds _) ⟨shown, rfl⟩ (Source.Changing.child cur.inner)).within_step ?_
    rintro answer after ⟨⟨shown', held⟩, ⟨rfl, draws⟩ | ⟨-, never⟩⟩
    · exact ⟨rfl, shown', held, made, draws⟩
    · exact (never trivial).elim
  have whole : Ensures (Cursor.onInner (Source.change name put child).start) (cur, e) fun answer after =>
      answer = .ok () ∧ shows after.2 ∧ (after.2.rowMap table entry).entries = (e.rowMap table entry).entries ∧
        Source.Changing.done after.1.inner = p.done ∧ (Source.Changing.child after.1.inner).Draws still rows :=
    Ensures.within_step inner fun _ _ came => came
  have started : Ensures Cursor.start (cur, e) fun answer after => answer = .ok () ∧
      Follows shows table entry still rows e (p.told name rows none .start) (.ok .done) after := by
    refine whole.bind ?_ ?_
    · rintro _ ⟨cur', e'⟩ ⟨-, shown', held, made', draws⟩
      refine ⟨rfl, shown', rfl, ⟨rfl, rfl, made', ?_⟩, ?_⟩
      · rintro rest ⟨⟩
        exact ⟨draws, List.suffix_refl rows⟩
      · rw [held]
        exact .refl _
    · rintro fault after ⟨other, -⟩
      exact absurd other (by simp)
  refine started.bind ?_ ?_
  · rintro _ after ⟨-, follows⟩
    exact follows
  · rintro fault after ⟨other, -⟩
    exact absurd other (by simp)

variable (puts : Puts put shows faults table entry rows) (stands : p.Stands still rows cur)

include puts stands

theorem pull_follows : Ensures Cursor.pull (cur, e) fun answer after =>
    ∃ stop, Halts faults stop ∧ Follows shows table entry still rows e (p.pulled name stop) answer after := by
  obtain ⟨done, ahead, place⟩ := p
  obtain ⟨isOpen, looked, made, awaits⟩ := stands
  cases place with
  | none =>
    rw [Ensures, Cursor.pull_of_closed isOpen]
    exact ⟨none, halts_none, shown, rfl, ⟨isOpen, looked, made, awaits⟩, .refl _⟩
  | some rest =>
    refine .congr (Cursor.checkOpen_of_open isOpen) (.here_bind ?_)
    rw [looked]
    cases ahead with
    | some row => exact ⟨none, halts_none, shown, rfl, ⟨isOpen, rfl, made, awaits⟩, .refl _⟩
    | none =>
      show Ensures (Cursor.onInner (Source.change name put child).fetch) (cur, e) _
      cases done with
      | true =>
        have fetched : Ensures (Source.change name put child).fetch (cur.inner, e) fun answer after =>
            answer = .ok none ∧ after = (cur.inner, e) := by
          refine .here_bind ?_
          rw [if_pos made]
          exact ⟨rfl, rfl⟩
        refine fetched.within_step ?_
        rintro _ _ ⟨rfl, rfl⟩
        exact ⟨none, halts_none, shown, rfl, ⟨isOpen, looked, made, awaits⟩, .refl _⟩
      | false =>
        obtain ⟨draws, suffix⟩ := awaits rest rfl
        refine (fetch_puts feeds puts name made shown draws fun row => suffix.mem).within_step ?_
        rintro answer after ⟨shown', ⟨rfl, made', draws', gained⟩ | ⟨halt, rfl, given, made', draws', gained⟩⟩
        · refine ⟨none, halts_none, shown', rfl, ⟨isOpen, looked, made', ?_⟩, gained⟩
          rintro left ⟨⟩
          exact ⟨draws', List.nil_suffix⟩
        · refine ⟨some halt, ?_, shown', rfl, ⟨isOpen, looked, made', ?_⟩, gained⟩
          · rintro _ ⟨⟩
            exact given
          · rintro left ⟨⟩
            exact ⟨draws', (List.drop_suffix ..).trans suffix⟩

theorem hasNext_follows : Ensures Cursor.hasNext (cur, e) fun answer after => ∃ stop, Halts faults stop ∧
    Follows shows table entry still rows e (p.told name rows stop .hasNext) (answer.map Reply.more) after := by
  refine (pull_follows feeds shown puts stands).bind ?_ ?_
  · rintro row ⟨cur', e'⟩ ⟨stop, halts, shown', same, ⟨isOpen, ahead, made, awaits⟩, gained⟩
    refine ⟨stop, halts, ?_⟩
    rw [told, ← same]
    exact ⟨shown', rfl, ⟨isOpen, rfl, made, awaits⟩, gained⟩
  · rintro fault after ⟨stop, halts, shown', same, stands', gained⟩
    refine ⟨stop, halts, ?_⟩
    rw [told, ← same]
    exact ⟨shown', rfl, stands', gained⟩

theorem next_follows : Ensures Cursor.next (cur, e) fun answer after => ∃ stop, Halts faults stop ∧
    Follows shows table entry still rows e (p.told name rows stop .next) (answer.map fun row => .row (some row))
      after := by
  refine (pull_follows feeds shown puts stands).bind ?_ ?_
  · rintro (_ | row) after ⟨stop, halts, shown', same, stands', gained⟩
    all_goals
      refine ⟨stop, halts, ?_⟩
      rw [told, ← same]
      exact ⟨shown', rfl, stands', gained⟩
  · rintro fault after ⟨stop, halts, shown', same, stands', gained⟩
    refine ⟨stop, halts, ?_⟩
    rw [told, ← same]
    exact ⟨shown', rfl, stands', gained⟩

/-- A call goes as is told, with a stop if a row could not be put in or the child was refused one. -/
theorem act_follows {use : Use} (call : use.isCall = true) : Ensures use.act (cur, e) fun reply after =>
    ∃ stop, Halts faults stop ∧ Follows shows table entry still rows e (p.told name rows stop use) reply after := by
  cases use with
  | start => exact (start_follows feeds shown stands.done).mono fun _ _ follows => ⟨none, halts_none, follows⟩
  | rewind =>
    -- to go back is to start from where closing leaves the plan
    have again : Use.rewind.act (cur, e) = Use.start.act (cur.close, e) := rfl
    have made : Source.Changing.done cur.close.inner = p.done := stands.done
    exact .congr again ((start_follows feeds shown made).mono fun _ _ follows => ⟨none, halts_none, follows⟩)
  | close => exact ⟨none, halts_none, shown, rfl, ⟨rfl, rfl, stands.done, nofun⟩, .refl _⟩
  | hasNext => exact (hasNext_follows feeds shown puts stands).bind (fun _ _ follows => follows) fun _ _ => id
  | next => exact (next_follows feeds shown puts stands).bind (fun _ _ follows => follows) fun _ _ => id
  | fetch | take | collect => exact absurd call (by simp [Use.isCall])

omit shown in
/-- All calls go as is told, each on the engine that there is then. -/
theorem outcomes_follow (calls : List (Engine × Use)) (each : ∀ call ∈ calls, shows call.1 ∧ call.2.isCall = true) :
    ∃ stops : List (Option Stop), stops.length = calls.length ∧ (∀ stop ∈ stops, Halts faults stop) ∧
      let told := p.tellings name rows ((calls.map Prod.snd).zip stops)
      cur.replies calls = told.map (fun answered => answered.2.answer) ∧
        List.Forall₂ (fun engines answered =>
            Gained answered.2.put (engines.1.rowMap table entry).entries (engines.2.rowMap table entry).entries)
          (cur.engines calls) told := by
  induction calls generalizing cur p with
  | nil => exact ⟨[], rfl, nofun, rfl, .nil⟩
  | cons call rest ih =>
    obtain ⟨e, use⟩ := call
    obtain ⟨shown, isCall⟩ := each _ List.mem_cons_self
    have followed := (act_follows feeds shown puts stands isCall).outcome
    generalize came : outcome use.act (cur, e) = done at followed
    obtain ⟨reply, cur', e'⟩ := done
    obtain ⟨stop, halts, follows⟩ := followed
    obtain ⟨stops, length, halts', replies, gained⟩ :=
      ih follows.stands fun call later => each call (List.mem_cons_of_mem _ later)
    refine ⟨stop :: stops, congrArg (· + 1) length, List.forall_mem_cons.mpr ⟨halts, halts'⟩, ?_, ?_⟩
    · obtain rfl : reply = _ := follows.answer
      rw [Cursor.replies_cons came, replies]
      rfl
    · rw [Cursor.engines, Cursor.outcomes_cons came]
      exact .cons follows.gained gained

end Progress

/-! ### Plans -/

namespace Engine

variable {c : Catalog} {stored : TableId → List (List Row)} {among : List TableId} {e e' : Engine} {txn : TxnId}
  {table : TableId} {entry : TableEntry}

/-- The other tables have the same rows on their pages. -/
def SameElsewhere (table : TableId) (e e' : Engine) : Prop :=
  ∀ other, other ≠ table → e'.rowsByPage other = e.rowsByPage other

theorem SameElsewhere.trans {e'' : Engine} (first : SameElsewhere table e e') (second : SameElsewhere table e' e'') :
    SameElsewhere table e e'' := fun other apart => (second other apart).trans (first other apart)

theorem rowsByPage_congr {other : TableId} (pages : e'.pagesIn other = e.pagesIn other)
    (seen : ∀ number, e'.view? ⟨other, number⟩ = e.view? ⟨other, number⟩) :
    e'.rowsByPage other = e.rowsByPage other := by
  rw [rowsByPage, rowsByPage, pages]
  simp only [rowsOn, seen]

theorem Browsed.same_elsewhere (browsed : Browsed txn e e') : SameElsewhere table e e' := fun _ _ =>
  rowsByPage_congr (browsed.swapped.to_sameFiles.pagesIn_eq _) fun _ => congrFun browsed.swapped.view?_eq _

theorem Grown.same_elsewhere {f : TableFile} (grown : Grown table f e e') : SameElsewhere table e e' := by
  intro other apart
  refine rowsByPage_congr (by rw [grown.pagesIn_after, if_neg apart]) fun number => ?_
  rw [grown.view?_after, if_neg]
  rintro ⟨⟩
  exact apart (grown.before.table_eq_of_fileOf? grown.file)

theorem Changed.same_elsewhere {page : Page} {slot : Nat} {content : Option (List Value)}
    (changed : Changed txn page slot content e e') (own : page.id.table = table) : SameElsewhere table e e' := by
  intro other apart
  refine rowsByPage_congr (changed.to_sameFiles.pagesIn_eq other) fun number => ?_
  rw [changed.view?_after, if_neg]
  rintro same
  exact apart (by rw [← own, ← same])

theorem Sought.same_elsewhere {f : TableFile} (sought : Sought txn table f e e') : SameElsewhere table e e' := by
  cases sought with
  | among browsed => exact browsed.same_elsewhere
  | beyond e₀ e₁ full before grown after =>
    exact (before.same_elsewhere.trans grown.same_elsewhere).trans after.same_elsewhere

theorem insert_elsewhere (coherent : e.Coherent) {row : Row} (fits : Row.Fits row.values row.schema.types) :
    Ensures (insert txn table row) e fun _ e' => SameElsewhere table e e' := by
  refine (insert_ensures coherent txn table row fits).mono ?_
  rintro (fault | location) e' done
  · rcases done with ⟨f, -, -, sought, -⟩ | ⟨rfl, -⟩ | ⟨rfl, -⟩
    · exact sought.same_elsewhere
    · exact fun _ _ => rfl
    · exact fun _ _ => rfl
  · obtain ⟨f, e₁, page, slot, -, -, sought, -, own, -, -, changed⟩ := done
    exact sought.same_elsewhere.trans (changed.same_elsewhere own)

/-- How the engine puts rows in. -/
def putIn (txn : TxnId) (table : TableId) (row : Row) : Action Unit := do let _ ← insert txn table row

theorem putIn_puts (found : c.find? table = some entry) (apart : table ∉ among) {rows : List Row}
    (conform : ∀ row ∈ rows, row.Conforms entry.schema.types) :
    Puts (putIn txn table) (Stores c stored among) Interrupts table entry rows := by
  intro row here e stores
  have conforms := conform row here
  have types : row.schema.sameTypes entry.schema := decide_eq_true conforms.schema
  have known : e.catalog.find? table = some entry := by rw [stores.catalog, found]
  have kept : ∀ {e'}, e'.Coherent → SameTables e e' → SameElsewhere table e e' → Stores c stored among e' := by
    intro e' coherent tables elsewhere
    refine ⟨coherent, tables.catalog.trans stores.catalog, fun other read => ?_⟩
    rw [elsewhere other (ne_of_mem_of_not_mem read apart)]
    exact stores.rows other read
  refine Ensures.bind (((insert_adds stores.coherent known txn row types conforms.fits_own_schema).and
    (insert_refines stores.coherent known row types conforms.fits_own_schema)).and
    (insert_elsewhere stores.coherent conforms.fits_own_schema)) ?_ ?_
  · rintro location e' ⟨⟨⟨coherent, tables, took⟩, -⟩, elsewhere⟩
    exact ⟨kept coherent tables elsewhere, [(location, row.values)], rfl,
      took.entries_perm (rowMap_within stores.coherent known)⟩
  · rintro fault e' ⟨⟨⟨coherent, tables, same⟩, -, -, reason⟩, elsewhere⟩
    refine ⟨kept coherent tables elsewhere, ?_, same⟩
    rcases reason with rfl | ⟨rfl, -⟩
    · exact .inr ⟨txn, rfl⟩
    · exact .inl rfl

end Engine

theorem Plan.feeds_of_means {c : Catalog} {stored : TableId → List (List Row)} {child : Plan}
    (draws : child.draws = true)
    (reads : child.Reads c) {rows : List Row} (means : child.meaning (fun table => (stored table).flatten) = .ok rows)
    (table : TableId) (entry : TableEntry) :
    ∃ still, child.source.Feeds (Engine.Stores c stored child.tables) Engine.Interrupts table entry rows still := by
  have supplied := sourceFrom_answers draws Engine.supply means
  rw [sourceFrom_supply] at supplied
  obtain ⟨still, answers⟩ := supplied
  refine ⟨still, fun held => answers (supply_supplies (fun e shown => shown.1) ?_
    (fun of here => (reads.find?_of_mem_scans of here).1) fun of here => (reads.find?_of_mem_scans of here).2)⟩
  rintro e e' txn ⟨stores, same⟩ browsed
  refine ⟨stores.stores_of_browsed browsed, ?_⟩
  rw [browsed.rowMap_eq]
  exact same

/-- Whatever child the rows come from and in whatever way they are put in, whichever cannot be put in and for what
reason: what the calls answer and what the table gains is as told. So nothing is put in once there is the row with
the number, which is that of the rows put in by the call that made it, the last ones that were to come. If the plan
is not started again after a call that failed, no row is put in twice, and if no call fails, all rows are put in
once and the number is theirs. -/
theorem Plan.rows_go_in_once_if_no_call_fails (name : String) {child : Source} {shows : Engine → Prop}
    {faults : Fault → Prop} {table : TableId} {entry : TableEntry} {rows : List Row}
    {still : List Row → child.State → Prop} {put : Row → Action Unit}
    (feeds : child.Feeds shows faults table entry rows still) (puts : Puts put shows faults table entry rows)
    (apart : ∀ fault, faults fault → fault ≠ .notOpen ∧ fault ≠ .noMoreRows) (calls : List (Engine × Use))
    (each : ∀ call ∈ calls, shows call.1 ∧ call.2.isCall = true) :
    let cur := Cursor.new (.change name put child)
    ∃ stops : List (Option Stop), stops.length = calls.length ∧
      let told := Progress.unopened.tellings name rows ((calls.map Prod.snd).zip stops)
      cur.replies calls = told.map (fun answered => answered.2.answer) ∧
      List.Forall₂ (fun engines answered =>
          Gained answered.2.put (engines.1.rowMap table entry).entries (engines.2.rowMap table entry).entries)
        (cur.engines calls) told ∧
      (told.Pairwise fun a b => Reply.counts a.2.answer = true → b.2.put = []) ∧
      (∀ answered ∈ told, ∀ row, answered.2.answer = .ok (.row (some row)) →
        ∃ made ∈ told, made.2.put <:+ rows ∧ Source.countRow name made.2.put.length = .ok row) ∧
      ((told.Pairwise fun a b => Reply.isFailure a.2.answer = true → b.1.opens = false) →
        (told.flatMap fun answered => answered.2.put).Sublist rows) ∧
      ((∀ answered ∈ told, Reply.isFailure answered.2.answer = false) → ∀ answered ∈ told,
        Reply.counts answered.2.answer = true → (told.flatMap fun answered => answered.2.put) = rows ∧
          ∀ row, answered.2.answer = .ok (.row (some row)) → Source.countRow name rows.length = .ok row) := by
  intro cur
  have stands : Progress.unopened.Stands still rows cur := Progress.stands_new
  obtain ⟨stops, length, halts, replies, gained⟩ := Progress.outcomes_follow feeds puts stands calls each
  have fails : ∀ call ∈ (calls.map Prod.snd).zip stops, ∀ halt, call.2 = some halt →
      Reply.isFailure (.error halt.fault) = true := by
    rintro ⟨use, stop⟩ among halt rfl
    have given := halts _ (List.of_mem_zip among).2 halt rfl
    exact Reply.isFailure_of_fault? rfl (apart _ given).1 (apart _ given).2
  have sound := Progress.sound_unopened rows
  refine ⟨stops, length, replies, gained, Progress.pairwise_put sound _, ?_, ?_, ?_⟩
  · intro answered among row same
    exact (Progress.put_of_given sound _ answered among row same).resolve_left fun looked =>
      Option.some_ne_none row looked.symm
  · exact Progress.sublist_put fails nofun fun _ => List.Sublist.refl rows
  · exact Progress.put_of_smooth rfl rfl (fun rest here => absurd here (by simp [Progress.unopened])) fails

namespace Archive

def sevenRows : List Row := [1, 2, 3, 4, 5, 6, 7].map fun n => ⟨⟨[⟨none, .int⟩]⟩, [.int n], none⟩

/-- Seven numbers, for a table of which six have room in memory. -/
def sevenNumbers : Query := .insert ⟨1⟩ ⟨1⟩ (.rows ⟨[⟨none, .int⟩]⟩ (sevenRows.map Row.values))

/-- The numbers are put in until there is no room left, and then it is made. -/
def roomMade : List Command :=
  [.openPlan "a" sevenNumbers, .usePlan "a" .start, .usePlan "a" .next, .step (.commit ⟨1⟩)]

def countOfNone : Row := ⟨Plan.countSchema "Inserted", [.int 0], none⟩

theorem seven_rows_go_in_once_at_most :
    let calls : List (Engine × Use) := [(Database.numbers.archive.session.engine, .start),
      (Database.numbers.archive.session.engine, .next),
      ((Database.numbers.archive.session.after roomMade).engine, .next)]
    let cur := Cursor.new (Plan.insert ⟨1⟩ ⟨1⟩ (.rows ⟨[⟨none, .int⟩]⟩ sevenRows)).source
    cur.replies calls = [.ok .done, .error .poolFull, .ok (.row (some countOfNone))] ∧
      ∃ told : List (Use × Telling Reply), cur.replies calls = told.map (fun answered => answered.2.answer) ∧
        (told.flatMap fun answered => answered.2.put).Sublist sevenRows := by
  intro calls cur
  have steady := Database.numbers.archive.session_steady
  have steady' := steady.steady_after roomMade
  have found : Database.numbers.archive.engine.catalog.find? ⟨1⟩ = some ⟨0, ⟨[⟨some "n", .int⟩]⟩, "t"⟩ := by cbv
  have conform : ∀ row ∈ sevenRows, row.Conforms [.int] := by
    intro row among
    obtain ⟨n, -, rfl⟩ := List.mem_map.mp among
    exact ⟨rfl, .cons rfl .nil⟩
  have reads : (Plan.rows ⟨[⟨none, .int⟩]⟩ sevenRows).Reads Database.numbers.archive.engine.catalog := conform
  obtain ⟨still, feeds⟩ : ∃ still, (Plan.rows ⟨[⟨none, .int⟩]⟩ sevenRows).source.Feeds
      (Engine.Stores Database.numbers.archive.engine.catalog (fun _ => []) []) Engine.Interrupts ⟨1⟩
      ⟨0, ⟨[⟨some "n", .int⟩]⟩, "t"⟩ sevenRows still := Plan.feeds_of_means (by rfl) reads rfl _ _
  have puts : Puts (Engine.putIn ⟨1⟩ ⟨1⟩) (Engine.Stores Database.numbers.archive.engine.catalog (fun _ => []) [])
      Engine.Interrupts ⟨1⟩ ⟨0, ⟨[⟨some "n", .int⟩]⟩, "t"⟩ sevenRows := Engine.putIn_puts found (by simp) conform
  have apart : ∀ fault, Engine.Interrupts fault → fault ≠ .notOpen ∧ fault ≠ .noMoreRows := by
    rintro fault (rfl | ⟨txn, rfl⟩) <;> simp
  have each : ∀ call ∈ calls, Engine.Stores Database.numbers.archive.engine.catalog (fun _ => []) [] call.1 ∧
      call.2.isCall = true := by
    simp only [calls, List.forall_mem_cons]
    exact ⟨⟨⟨steady.ready.coherent, steady.ready.catalog, by simp⟩, rfl⟩,
      ⟨⟨steady.ready.coherent, steady.ready.catalog, by simp⟩, rfl⟩,
      ⟨⟨steady'.ready.coherent, steady'.ready.catalog, by simp⟩, rfl⟩, by simp⟩
  obtain ⟨stops, length, replies, -, -, -, once, -⟩ :=
    Plan.rows_go_in_once_if_no_call_fails "Inserted" feeds puts apart calls each
  refine ⟨by cbv, _, replies, once ?_⟩
  -- only the first call starts the plan
  obtain ⟨first, second, third, rfl⟩ := List.length_eq_three.mp length
  simp [calls, Progress.tellings, Use.opens]

/-- The seventh number is lost, and so is how many there were. To start again puts numbers in that are there. -/
theorem seven_rows_are_counted_as_none :
    Database.numbers.archive.session.replies "a" (roomMade ++ [.usePlan "a" .next]) =
        [.ok .done, .error .poolFull, .ok (.row (some countOfNone))] ∧
      ((Database.numbers.archive.session.after (roomMade ++ [.usePlan "a" .next])).engine.rowsOf ⟨1⟩).map Row.values =
        [[.int 1], [.int 2], [.int 3], [.int 4], [.int 5], [.int 6]] ∧
      ((Database.numbers.archive.session.after
          (roomMade ++ [.usePlan "a" .rewind, .usePlan "a" .next])).engine.rowsOf ⟨1⟩).map Row.values =
        [[.int 1], [.int 2], [.int 3], [.int 4], [.int 5], [.int 6], [.int 1], [.int 2], [.int 3], [.int 4]] := by
  refine ⟨?_, ?_, ?_⟩ <;> cbv

end Archive

end RowStore
