import RowStore.Engine
/-!
# What an action comes to

An action that fails has still changed the state, so a condition on what it comes to speaks of the
answer or the fault together with the state that is left.
-/

namespace RowStore

variable {σ α β : Type}

/-- Done in the state, the action comes to an answer or a fault, and leaves a state, of which the
condition holds. -/
def Ensures (act : EStateM Fault σ α) (s : σ) (post : Except Fault α → σ → Prop) : Prop :=
  match act s with
  | .ok a s => post (.ok a) s
  | .error fault s => post (.error fault) s

/-- What the action comes to, and the state that it leaves. -/
def outcome (act : EStateM Fault σ α) (s : σ) : Except Fault α × σ :=
  match act s with
  | .ok a s => (.ok a, s)
  | .error fault s => (.error fault, s)

theorem get_bind_eq (next : σ → EStateM Fault σ β) (s : σ) : (get >>= next) s = next s s := rfl

namespace Ensures

variable {act : EStateM Fault σ α} {next : α → EStateM Fault σ β} {s s' : σ} {a : α} {fault : Fault}
  {post post' : Except Fault α → σ → Prop} {goal : Except Fault β → σ → Prop}

theorem of_ok (ensured : Ensures act s post) (done : act s = .ok a s') : post (.ok a) s' := by
  rw [Ensures, done] at ensured
  exact ensured

theorem of_error (ensured : Ensures act s post) (failed : act s = .error fault s') :
    post (.error fault) s' := by
  rw [Ensures, failed] at ensured
  exact ensured

theorem intro (ok : ∀ a s', act s = .ok a s' → post (.ok a) s')
    (error : ∀ fault s', act s = .error fault s' → post (.error fault) s') : Ensures act s post := by
  rw [Ensures]
  cases result : act s with
  | ok a s' => exact ok a s' result
  | error fault s' => exact error fault s' result

theorem outcome (ensured : Ensures act s post) : post (outcome act s).1 (outcome act s).2 := by
  rw [RowStore.outcome]
  cases result : act s with
  | ok a s' => exact ensured.of_ok result
  | error fault s' => exact ensured.of_error result

theorem of_forall (holds : ∀ answer s', post answer s') : Ensures act s post :=
  intro (fun _ _ _ => holds _ _) fun _ _ _ => holds _ _

theorem congr {act' : EStateM Fault σ α} (same : act s = act' s') (ensured : Ensures act' s' post) :
    Ensures act s post := by
  rw [Ensures, same]
  exact ensured

theorem mono (ensured : Ensures act s post) (weaker : ∀ answer s', post answer s' → post' answer s') :
    Ensures act s post' :=
  intro (fun _ _ done => weaker _ _ (ensured.of_ok done))
    fun _ _ failed => weaker _ _ (ensured.of_error failed)

theorem and (first : Ensures act s post) (second : Ensures act s post') :
    Ensures act s fun answer s' => post answer s' ∧ post' answer s' :=
  intro (fun _ _ done => ⟨first.of_ok done, second.of_ok done⟩)
    fun _ _ failed => ⟨first.of_error failed, second.of_error failed⟩

theorem pure (holds : post (.ok a) s) : Ensures (Pure.pure a) s post := holds

theorem throw (holds : post (.error fault) s) : Ensures (MonadExcept.throw fault) s post := holds

theorem change {f : σ → σ} {post : Except Fault Unit → σ → Prop} (holds : post (.ok ()) (f s)) :
    Ensures (modify f) s post := holds

/-- First the one action, then, unless it fails, the one that depends on its answer. -/
theorem bind (first : Ensures act s post) (later : ∀ a s', post (.ok a) s' → Ensures (next a) s' goal)
    (failed : ∀ fault s', post (.error fault) s' → goal (.error fault) s') :
    Ensures (act >>= next) s goal := by
  change Ensures (EStateM.bind act next) s goal
  rw [Ensures, EStateM.bind]
  cases result : act s with
  | ok a s' => exact later a s' (first.of_ok result)
  | error fault s' => exact failed fault s' (first.of_error result)

theorem get_bind {next : σ → EStateM Fault σ β} (later : Ensures (next s) s goal) :
    Ensures (get >>= next) s goal := later

theorem map {f : α → β} (first : Ensures act s post) (later : ∀ a s', post (.ok a) s' → goal (.ok (f a)) s')
    (failed : ∀ fault s', post (.error fault) s' → goal (.error fault) s') :
    Ensures (f <$> act) s goal :=
  bind first (fun a s' holds => pure (later a s' holds)) failed

theorem attempt {goal : Except Fault (Except Fault α) → σ → Prop} (first : Ensures act s post)
    (later : ∀ answer s', post answer s' → goal (.ok answer) s') : Ensures (RowStore.attempt act) s goal := by
  rw [Ensures, RowStore.attempt]
  cases result : act s with
  | ok a s' => exact later _ _ (first.of_ok result)
  | error fault s' => exact later _ _ (first.of_error result)

theorem attempt_succeeds (act : EStateM Fault σ α) (s : σ) :
    Ensures (RowStore.attempt act) s fun answer _ => ∃ x, answer = .ok x := by
  have tried : Ensures act s fun _ _ => True := of_forall fun _ _ => trivial
  exact tried.attempt fun x _ _ => ⟨x, rfl⟩

theorem exists_ok (succeeds : Ensures act s fun answer _ => ∃ a, answer = .ok a) :
    ∃ a s', act s = .ok a s' := by
  cases result : act s with
  | ok a s' => exact ⟨a, s', rfl⟩
  | error fault s' =>
    obtain ⟨a, same⟩ := succeeds.of_error result
    exact absurd same (by simp)

end Ensures

end RowStore
