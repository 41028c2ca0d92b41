import RowStore.Proofs.Actions
/-!
# Two runs that agree

The same is done in two states that are twins. The two runs agree when they come to the same and leave
twins, or one of them reports that there is no room in memory: from there on they need not have
anything in common.
-/

namespace RowStore

variable {σ α β : Type}

/-- What two runs have come to. -/
def Matches (twin : σ → σ → Prop) (post : α → σ → α → σ → Prop) :
    Except Fault α → σ → Except Fault α → σ → Prop
  | .ok a, s₁, .ok b, s₂ => post a s₁ b s₂
  | .error fault, s₁, .error other, s₂ =>
    fault = .poolFull ∨ other = .poolFull ∨ (fault = other ∧ twin s₁ s₂)
  | .error fault, _, .ok _, _ => fault = .poolFull
  | .ok _, _, .error other, _ => other = .poolFull

/-- The two actions are the same but for how often something is tried. -/
def Agrees (twin : σ → σ → Prop) (act₁ act₂ : EStateM Fault σ α) (s₁ s₂ : σ)
    (post : α → σ → α → σ → Prop) : Prop :=
  Matches twin post (outcome act₁ s₁).1 (outcome act₁ s₁).2 (outcome act₂ s₂).1 (outcome act₂ s₂).2

/-- The answers are the same, and what is left are twins. -/
def Alike (twin : σ → σ → Prop) (a : α) (s₁ : σ) (b : α) (s₂ : σ) : Prop := a = b ∧ twin s₁ s₂

/-- The answers are the same, unless the lack of room has cut one of them short. -/
def Partly (twin : σ → σ → Prop) (full : α → Prop) (a : α) (s₁ : σ) (b : α) (s₂ : σ) : Prop :=
  full a ∨ full b ∨ Alike twin a s₁ b s₂

namespace Partly

variable {τ : Type} {twin : σ → σ → Prop} {twin' : τ → τ → Prop} {full : α → Prop} {full' : β → Prop} {a b : α}
  {s₁ s₂ : σ} {t₁ t₂ : τ}

theorem of_twins (twins : twin s₁ s₂) : Partly twin full a s₁ a s₂ := .inr (.inr ⟨rfl, twins⟩)

theorem map (f : α → β) (partly : Partly twin full a s₁ b s₂) (cut : ∀ a, full a → full' (f a))
    (after : twin s₁ s₂ → twin' t₁ t₂) : Partly twin' full' (f a) t₁ (f b) t₂ := by
  rcases partly with short | short | ⟨rfl, twins⟩
  · exact .inl (cut a short)
  · exact .inr (.inl (cut b short))
  · exact of_twins (after twins)

end Partly

namespace Matches

variable {twin : σ → σ → Prop} {post post' : α → σ → α → σ → Prop} {x y : Except Fault α} {s₁ s₂ : σ}

theorem full_left : Matches twin post (.error .poolFull) s₁ y s₂ := by
  cases y with
  | ok b => rfl
  | error other => exact .inl rfl

theorem full_right : Matches twin post x s₁ (.error .poolFull) s₂ := by
  cases x with
  | ok a => rfl
  | error fault => exact .inr (.inl rfl)

theorem error_of_twins {fault : Fault} (twins : twin s₁ s₂) :
    Matches twin post (.error fault) s₁ (.error fault) s₂ := .inr (.inr ⟨rfl, twins⟩)

theorem mono (matched : Matches twin post x s₁ y s₂)
    (weaker : ∀ a b, x = .ok a → y = .ok b → post a s₁ b s₂ → post' a s₁ b s₂) :
    Matches twin post' x s₁ y s₂ := by
  cases x with
  | error fault =>
    cases y with
    | error other => exact matched
    | ok b => exact matched
  | ok a =>
    cases y with
    | error other => exact matched
    | ok b => exact weaker a b rfl rfl matched

end Matches

theorem outcome_bind (act : EStateM Fault σ α) (next : α → EStateM Fault σ β) (s : σ) :
    outcome (act >>= next) s =
      match outcome act s with
      | (.ok a, s') => outcome (next a) s'
      | (.error fault, s') => (.error fault, s') := by
  change outcome (EStateM.bind act next) s = _
  rw [outcome, outcome, EStateM.bind]
  cases act s <;> rfl

namespace Agrees

variable {twin : σ → σ → Prop} {act₁ act₂ : EStateM Fault σ α} {next₁ next₂ : α → EStateM Fault σ β}
  {s₁ s₂ t₁ t₂ : σ} {post post' : α → σ → α → σ → Prop} {goal : β → σ → β → σ → Prop}

theorem of_ensures {left right : Except Fault α → σ → Prop} (first : Ensures act₁ s₁ left)
    (second : Ensures act₂ s₂ right)
    (both : ∀ x t₁ y t₂, left x t₁ → right y t₂ → Matches twin post x t₁ y t₂) :
    Agrees twin act₁ act₂ s₁ s₂ post := both _ _ _ _ first.outcome second.outcome

theorem pure {a b : α} (holds : post a s₁ b s₂) : Agrees twin (Pure.pure a) (Pure.pure b) s₁ s₂ post := holds

theorem of_ok {a b : α} (done₁ : act₁ s₁ = .ok a t₁) (done₂ : act₂ s₂ = .ok b t₂) (holds : post a t₁ b t₂) :
    Agrees twin act₁ act₂ s₁ s₂ post := by
  rw [Agrees, outcome, outcome, done₁, done₂]
  exact holds

theorem throw {fault : Fault} (twins : twin s₁ s₂) :
    Agrees twin (MonadExcept.throw fault) (MonadExcept.throw fault) s₁ s₂ post := .error_of_twins twins

theorem full_left : Agrees twin (MonadExcept.throw .poolFull) act₂ s₁ s₂ post := Matches.full_left

theorem full_right : Agrees twin act₁ (MonadExcept.throw .poolFull) s₁ s₂ post := Matches.full_right

theorem congr {act₁' act₂' : EStateM Fault σ α} (same₁ : act₁ s₁ = act₁' t₁) (same₂ : act₂ s₂ = act₂' t₂)
    (agrees : Agrees twin act₁' act₂' t₁ t₂ post) : Agrees twin act₁ act₂ s₁ s₂ post := by
  rw [Agrees, outcome, outcome, same₁, same₂]
  exact agrees

theorem mono (agrees : Agrees twin act₁ act₂ s₁ s₂ post)
    (weaker : ∀ a t₁ b t₂, post a t₁ b t₂ → post' a t₁ b t₂) : Agrees twin act₁ act₂ s₁ s₂ post' :=
  Matches.mono agrees fun a b _ _ => weaker a _ b _

/-- First the one action and then the one that depends on its answer. -/
theorem bind (first : Agrees twin act₁ act₂ s₁ s₂ post)
    (later : ∀ a t₁ b t₂, post a t₁ b t₂ → Agrees twin (next₁ a) (next₂ b) t₁ t₂ goal) :
    Agrees twin (act₁ >>= next₁) (act₂ >>= next₂) s₁ s₂ goal := by
  rw [Agrees, outcome_bind, outcome_bind]
  rw [Agrees] at first
  generalize outcome act₁ s₁ = left at first ⊢
  generalize outcome act₂ s₂ = right at first ⊢
  obtain ⟨x, t₁⟩ := left
  obtain ⟨y, t₂⟩ := right
  cases x with
  | error fault =>
    cases y with
    | error other => exact first
    | ok b =>
      obtain rfl : fault = .poolFull := first
      exact Matches.full_left
  | ok a =>
    cases y with
    | error other =>
      obtain rfl : other = .poolFull := first
      exact Matches.full_right
    | ok b => exact later a t₁ b t₂ first

theorem get_bind {next₁ next₂ : σ → EStateM Fault σ β} (later : Agrees twin (next₁ s₁) (next₂ s₂) s₁ s₂ goal) :
    Agrees twin (get >>= next₁) (get >>= next₂) s₁ s₂ goal := later

theorem map {f g : α → β} (first : Agrees twin act₁ act₂ s₁ s₂ post)
    (later : ∀ a t₁ b t₂, post a t₁ b t₂ → goal (f a) t₁ (g b) t₂) :
    Agrees twin (f <$> act₁) (g <$> act₂) s₁ s₂ goal :=
  bind first fun a t₁ b t₂ holds => pure (later a t₁ b t₂ holds)

theorem attempt {goal : Except Fault α → σ → Except Fault α → σ → Prop}
    (first : Agrees twin act₁ act₂ s₁ s₂ post)
    (later : ∀ x t₁ y t₂, Matches twin post x t₁ y t₂ → goal x t₁ y t₂) :
    Agrees twin (RowStore.attempt act₁) (RowStore.attempt act₂) s₁ s₂ goal := by
  have known : ∀ (act : EStateM Fault σ α) s, outcome (RowStore.attempt act) s =
      (.ok (outcome act s).1, (outcome act s).2) := by
    intro act s
    rw [outcome, outcome, RowStore.attempt]
    cases act s <;> rfl
  rw [Agrees, known, known]
  exact later _ _ _ _ first

/-- Done on a part of a larger state. -/
theorem lift {τ : Type} {twin' : τ → τ → Prop} {goal : β → τ → β → τ → Prop} {lifted₁ lifted₂ : EStateM Fault τ β}
    {t₁ t₂ : τ} (f : α → β) (put₁ put₂ : σ → τ) (agrees : Agrees twin act₁ act₂ s₁ s₂ post)
    (left : outcome lifted₁ t₁ = ((outcome act₁ s₁).1.map f, put₁ (outcome act₁ s₁).2))
    (right : outcome lifted₂ t₂ = ((outcome act₂ s₂).1.map f, put₂ (outcome act₂ s₂).2))
    (failed : ∀ u₁ u₂, twin u₁ u₂ → twin' (put₁ u₁) (put₂ u₂))
    (done : ∀ a u₁ b u₂, post a u₁ b u₂ → goal (f a) (put₁ u₁) (f b) (put₂ u₂)) :
    Agrees twin' lifted₁ lifted₂ t₁ t₂ goal := by
  rw [Agrees] at agrees
  rw [Agrees, left, right]
  generalize outcome act₁ s₁ = first at agrees ⊢
  generalize outcome act₂ s₂ = second at agrees ⊢
  obtain ⟨x, u₁⟩ := first
  obtain ⟨y, u₂⟩ := second
  cases x with
  | error fault =>
    cases y with
    | error other => exact agrees.imp_right fun rest => rest.imp_right fun ⟨same, twins⟩ => ⟨same, failed u₁ u₂ twins⟩
    | ok b => exact agrees
  | ok a =>
    cases y with
    | error other => exact agrees
    | ok b => exact done a u₁ b u₂ agrees

/-- Where neither of the two runs has run out of memory, both have come to the same. -/
theorem eq_of_room {full : α → Prop} (agrees : Agrees twin act₁ act₂ s₁ s₂ (Partly twin full))
    (room₁ : (outcome act₁ s₁).1 ≠ .error .poolFull ∧ ∀ a, (outcome act₁ s₁).1 = .ok a → ¬full a)
    (room₂ : (outcome act₂ s₂).1 ≠ .error .poolFull ∧ ∀ a, (outcome act₂ s₂).1 = .ok a → ¬full a) :
    (outcome act₁ s₁).1 = (outcome act₂ s₂).1 ∧ twin (outcome act₁ s₁).2 (outcome act₂ s₂).2 := by
  rw [Agrees] at agrees
  generalize outcome act₁ s₁ = first at agrees room₁ ⊢
  generalize outcome act₂ s₂ = second at agrees room₂ ⊢
  obtain ⟨x, t₁⟩ := first
  obtain ⟨y, t₂⟩ := second
  obtain ⟨short₁, whole₁⟩ := room₁
  obtain ⟨short₂, whole₂⟩ := room₂
  cases x with
  | error fault =>
    cases y with
    | error other =>
      obtain ⟨same, twins⟩ := (agrees.resolve_left fun full => short₁ (congrArg _ full)).resolve_left
        fun full => short₂ (congrArg _ full)
      exact ⟨congrArg Except.error same, twins⟩
    | ok b => exact absurd (congrArg Except.error agrees) short₁
  | ok a =>
    cases y with
    | error other => exact absurd (congrArg Except.error agrees) short₂
    | ok b =>
      obtain ⟨same, twins⟩ := (agrees.resolve_left (whole₁ a rfl)).resolve_left (whole₂ b rfl)
      exact ⟨congrArg Except.ok same, twins⟩

theorem mono_twin {twin' : σ → σ → Prop} (agrees : Agrees twin act₁ act₂ s₁ s₂ post)
    (alike : ∀ t₁ t₂, twin t₁ t₂ → twin' t₁ t₂) (weaker : ∀ a t₁ b t₂, post a t₁ b t₂ → post' a t₁ b t₂) :
    Agrees twin' act₁ act₂ s₁ s₂ post' := by
  have same : ∀ (act : EStateM Fault σ α) s, outcome act s = ((outcome act s).1.map id, id (outcome act s).2) := by
    intro act s
    rw [outcome]
    cases act s <;> rfl
  exact agrees.lift id id id (same act₁ s₁) (same act₂ s₂) alike weaker

/-- What is done after a try always has an answer, and when there was no room the answer says so. -/
theorem attempt_bind {later : Except Fault α → EStateM Fault σ β} {full : β → Prop}
    (first : Agrees twin act₁ act₂ s₁ s₂ post) (answers : ∀ x s, ∃ b s', later x s = .ok b s')
    (cut : ∀ s b s', later (.error .poolFull) s = .ok b s' → full b)
    (failed : ∀ fault t₁ t₂, twin t₁ t₂ →
      Agrees twin (later (.error fault)) (later (.error fault)) t₁ t₂ (Partly twin full))
    (done : ∀ a t₁ b t₂, post a t₁ b t₂ →
      Agrees twin (later (.ok a)) (later (.ok b)) t₁ t₂ (Partly twin full)) :
    Agrees twin (RowStore.attempt act₁ >>= later) (RowStore.attempt act₂ >>= later) s₁ s₂ (Partly twin full) := by
  refine (first.attempt fun x t₁ y t₂ matched => matched).bind ?_
  intro x t₁ y t₂ matched
  have left : x = .error .poolFull → Agrees twin (later x) (later y) t₁ t₂ (Partly twin full) := by
    intro short
    subst short
    obtain ⟨b, u₁, done₁⟩ := answers (.error .poolFull) t₁
    obtain ⟨b', u₂, done₂⟩ := answers y t₂
    exact .of_ok done₁ done₂ (.inl (cut _ _ _ done₁))
  have right : y = .error .poolFull → Agrees twin (later x) (later y) t₁ t₂ (Partly twin full) := by
    intro short
    subst short
    obtain ⟨b, u₁, done₁⟩ := answers x t₁
    obtain ⟨b', u₂, done₂⟩ := answers (.error .poolFull) t₂
    exact .of_ok done₁ done₂ (.inr (.inl (cut _ _ _ done₂)))
  cases x with
  | error fault =>
    cases y with
    | error other =>
      rcases matched with rfl | rfl | ⟨rfl, twins⟩
      · exact left rfl
      · exact right rfl
      · exact failed fault t₁ t₂ twins
    | ok b => exact left (congrArg Except.error matched)
  | ok a =>
    cases y with
    | error other => exact right (congrArg Except.error matched)
    | ok b => exact done a t₁ b t₂ matched

end Agrees

end RowStore
