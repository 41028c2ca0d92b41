import RowStore.Proofs.Plan.Pairs
/-!
# Cursors beside twin engines

When a source gives the same beside twin engines, so does a cursor that draws from it, whatever it
does with the rows.
-/

namespace RowStore

open Engine

/-- The row, if there is one, has values for the columns. -/
def Row.MayConform (types : List ColType) (answer : Option Row) : Prop :=
  ∀ row, answer = some row → row.Conforms types

/-- The source does the same beside twin engines, its states stay as they should be, and its rows have
values for the columns. -/
structure Source.Keeps (c : Catalog) (types : List ColType) (source : Source) (good : source.State → Prop) :
    Prop where
  initial : good source.initial
  finish : ∀ s, good s → good (source.finish s)
  replay : ∀ again, source.replay = some again → ∀ s, good s → good (again s)
  start : ∀ s e₁ e₂, good s → Twins c e₁ e₂ →
    Agrees (Paired c good) source.start source.start (s, e₁) (s, e₂) (Given c good fun _ => True)
  fetch : ∀ s e₁ e₂, good s → Twins c e₁ e₂ →
    Agrees (Paired c good) source.fetch source.fetch (s, e₁) (s, e₂) (Given c good (Row.MayConform types))

namespace Cursor

variable {source : Source} {c : Catalog} {types : List ColType} {good : source.State → Prop} {α β : Type}

structure Sound (types : List ColType) (good : source.State → Prop) (cur : Cursor source) : Prop where
  inner : good cur.inner
  ahead : Row.MayConform types cur.ahead

theorem sound_of_inner {isOpen : Bool} {inner : source.State} (holds : good inner) :
    Sound types good (⟨isOpen, none, inner⟩ : Cursor source) := ⟨holds, fun _ same => absurd same (by simp)⟩

theorem Sound.sound_close {cur : Cursor source} (keeps : source.Keeps c types good) (sound : cur.Sound types good) :
    cur.close.Sound types good := sound_of_inner (keeps.finish _ sound.inner)

theorem sound_new (keeps : source.Keeps c types good) : (new source).Sound types good :=
  sound_of_inner keeps.initial

section

variable {cur : Cursor source} (keeps : source.Keeps c types good) (sound : cur.Sound types good)
  {e₁ e₂ : Engine} (twins : Twins c e₁ e₂)

include sound twins

theorem checkOpen_bind {next₁ next₂ : Unit → Step (Cursor source) β}
    {goal : β → Cursor source × Engine → β → Cursor source × Engine → Prop}
    (later : Agrees (Paired c (Sound types good)) (next₁ ()) (next₂ ()) (cur, e₁) (cur, e₂) goal) :
    Agrees (Paired c (Sound types good)) (checkOpen >>= next₁) (checkOpen >>= next₂) (cur, e₁) (cur, e₂) goal := by
  have checked : ∀ (next : Unit → Step (Cursor source) β) e, (checkOpen >>= next) (cur, e) =
      if cur.isOpen then next () (cur, e) else .error .notOpen (cur, e) := by
    intro next e
    cases isOpen : cur.isOpen with
    | true => simp [checkOpen, Step.here, bind, EStateM.bind, isOpen, pure, EStateM.pure]
    | false =>
      obtain ⟨_, ahead, inner⟩ := cur
      obtain rfl : _ = false := isOpen
      rfl
  rw [Agrees, outcome, outcome, checked, checked]
  cases cur.isOpen with
  | true => exact later
  | false => exact .error_of_twins ⟨rfl, sound, twins⟩

omit twins in
theorem onInner_agrees {act : Step source.State α} {yields : α → Prop}
    (agrees : Agrees (Paired c good) act act (cur.inner, e₁) (cur.inner, e₂) (Given c good yields)) :
    Agrees (Paired c (Sound types good)) (onInner act) (onInner act) (cur, e₁) (cur, e₂)
      (Given c (Sound types good) yields) := by
  refine Agrees.within_step agrees ?_
  intro inner holds
  exact ⟨holds, sound.ahead⟩

include keeps

theorem start_agrees :
    Agrees (Paired c (Sound types good)) start start (cur, e₁) (cur, e₂)
      (Given c (Sound types good) fun _ => True) := by
  refine (onInner_agrees sound (keeps.start _ _ _ sound.inner twins)).bind_paired ?_
  intro _ s f₁ f₂ sound' twins' _
  exact ⟨rfl, ⟨rfl, sound_of_inner sound'.inner, twins'⟩, trivial⟩

theorem fetch_agrees :
    Agrees (Paired c (Sound types good)) fetch fetch (cur, e₁) (cur, e₂)
      (Given c (Sound types good) (Row.MayConform types)) :=
  onInner_agrees sound (keeps.fetch _ _ _ sound.inner twins)

theorem pull_agrees :
    Agrees (Paired c (Sound types good)) pull pull (cur, e₁) (cur, e₂)
      (Given c (Sound types good) (Row.MayConform types)) := by
  refine checkOpen_bind sound twins ?_
  obtain ⟨isOpen, ahead, inner⟩ := cur
  cases ahead with
  | some row => exact .of_ok rfl rfl ⟨rfl, ⟨rfl, sound_of_inner sound.inner, twins⟩, sound.ahead⟩
  | none => exact .congr rfl rfl (fetch_agrees keeps sound twins)

theorem hasNext_agrees :
    Agrees (Paired c (Sound types good)) hasNext hasNext (cur, e₁) (cur, e₂)
      (Given c (Sound types good) fun _ => True) := by
  refine (pull_agrees keeps sound twins).bind_paired ?_
  intro row s f₁ f₂ sound' twins' conforms
  exact ⟨rfl, ⟨rfl, ⟨sound'.inner, conforms⟩, twins'⟩, trivial⟩

theorem next_agrees :
    Agrees (Paired c (Sound types good)) next next (cur, e₁) (cur, e₂)
      (Given c (Sound types good) (Row.Conforms types)) := by
  refine (pull_agrees keeps sound twins).bind_paired ?_
  intro answer s f₁ f₂ sound' twins' conforms
  cases answer with
  | none => exact .throw ⟨rfl, sound', twins'⟩
  | some row => exact .pure ⟨rfl, ⟨rfl, sound', twins'⟩, conforms row rfl⟩

theorem rewind_agrees :
    Agrees (Paired c (Sound types good)) rewind rewind (cur, e₁) (cur, e₂)
      (Given c (Sound types good) fun _ => True) := by
  rw [rewind]
  cases replay : source.replay with
  | none => exact start_agrees keeps (sound.sound_close keeps) twins
  | some again =>
    refine checkOpen_bind sound twins ?_
    exact ⟨rfl, ⟨rfl, sound_of_inner (keeps.replay again replay _ sound.inner), twins⟩, trivial⟩

omit keeps sound twins in
theorem turns_bind {twin : Cursor source × Engine → Cursor source × Engine → Prop}
    {next₁ next₂ : Nat → Step (Cursor source) β}
    {goal : β → Cursor source × Engine → β → Cursor source × Engine → Prop}
    (later : Agrees twin (next₁ (source.limit e₁ + 2)) (next₂ (source.limit e₂ + 2)) (cur, e₁) (cur, e₂) goal) :
    Agrees twin (turns source >>= next₁) (turns source >>= next₂) (cur, e₁) (cur, e₂) goal := later

theorem drain_agrees {visit : β → Row → Action β}
    (visits : ∀ acc row e₁ e₂, row.Conforms types → Twins c e₁ e₂ →
      Agrees (Twins c) (visit acc row) (visit acc row) e₁ e₂ (Alike (Twins c)))
    (turns₁ turns₂ : Nat) (acc : β) :
    Agrees (Paired c (Sound types good)) (drain visit turns₁ acc) (drain visit turns₂ acc) (cur, e₁) (cur, e₂)
      (Given c (Sound types good) fun _ => True) := by
  induction turns₁ generalizing turns₂ acc cur e₁ e₂ with
  | zero => exact .full_left
  | succ turns₁ ih =>
    cases turns₂ with
    | zero => exact .full_right
    | succ turns₂ =>
      refine (pull_agrees keeps sound twins).bind_paired ?_
      intro answer s f₁ f₂ sound' twins' conforms
      cases answer with
      | none => exact .pure ⟨rfl, ⟨rfl, sound', twins'⟩, trivial⟩
      | some row =>
        have visited : Agrees (Paired c (Sound types good)) (Step.engine (visit acc row))
            (Step.engine (visit acc row)) (s, f₁) (s, f₂) (Given c (Sound types good) fun _ => True) := by
          refine ((visits acc row f₁ f₂ (conforms row rfl) twins').engine_step sound' ?_).mono fun _ _ _ _ done =>
            done.1
          intro _ _ _ _ done
          exact ⟨done.1, done.2, trivial⟩
        refine visited.bind_paired ?_
        intro acc s g₁ g₂ sound'' twins'' _
        exact ih sound'' twins'' turns₂ acc

theorem find_agrees (accepts : Row → Bool) (turns₁ turns₂ : Nat) :
    Agrees (Paired c (Sound types good)) (find accepts turns₁) (find accepts turns₂) (cur, e₁) (cur, e₂)
      (Given c (Sound types good) (Row.MayConform types)) := by
  induction turns₁ generalizing turns₂ cur e₁ e₂ with
  | zero => exact .full_left
  | succ turns₁ ih =>
    cases turns₂ with
    | zero => exact .full_right
    | succ turns₂ =>
      refine (pull_agrees keeps sound twins).bind_paired ?_
      intro answer s f₁ f₂ sound' twins' conforms
      cases answer with
      | none => exact .pure ⟨rfl, ⟨rfl, sound', twins'⟩, conforms⟩
      | some row =>
        by_cases accepted : accepts row
        · simp only [accepted, if_true]
          exact .pure ⟨rfl, ⟨rfl, sound', twins'⟩, conforms⟩
        · simp only [accepted]
          exact ih sound' twins' turns₂

theorem collect_agrees :
    Agrees (Paired c (Sound types good)) collect collect (cur, e₁) (cur, e₂)
      (Given c (Sound types good) fun _ => True) := by
  refine (drain_agrees keeps sound twins ?_ _ _ []).bind_paired ?_
  · intro rows row f₁ f₂ _ twins'
    exact ⟨rfl, twins'⟩
  · intro rows s f₁ f₂ sound' twins' _
    exact .pure ⟨rfl, ⟨rfl, sound', twins'⟩, trivial⟩

end

/-- What ends the rows early is part of the answer. -/
theorem take_succeeds (n : Nat) (s : Cursor source × Engine) :
    Ensures (take n) s fun answer _ => ∃ a, answer = .ok a := by
  induction n generalizing s with
  | zero => exact .pure ⟨_, rfl⟩
  | succ n ih =>
    refine (Ensures.attempt_succeeds next s).bind ?_ fun _ _ failed => absurd failed (by simp)
    intro x s' _
    cases x with
    | error fault => exact .pure ⟨_, rfl⟩
    | ok row =>
      refine (ih s').bind ?_ fun _ _ failed => absurd failed (by simp)
      intro answer _ _
      exact .pure ⟨_, rfl⟩

theorem take_agrees (keeps : source.Keeps c types good) {cur : Cursor source} (sound : cur.Sound types good)
    {e₁ e₂ : Engine} (twins : Twins c e₁ e₂) (n : Nat) :
    Agrees (Paired c (Sound types good)) (take n) (take n) (cur, e₁) (cur, e₂)
      (Partly (Paired c (Sound types good)) Short) := by
  induction n generalizing cur e₁ e₂ with
  | zero => exact .pure (.of_twins ⟨rfl, sound, twins⟩)
  | succ n ih =>
    refine (next_agrees keeps sound twins).attempt_bind ?_ ?_ ?_ ?_
    case refine_1 =>
      intro x t
      apply Ensures.exists_ok
      cases x with
      | error fault => exact .pure ⟨_, rfl⟩
      | ok row =>
        refine (take_succeeds n t).bind ?_ fun _ _ failed => absurd failed (by simp)
        intro answer _ _
        exact .pure ⟨_, rfl⟩
    case refine_2 =>
      intro t b t' done
      cases done
      rfl
    case refine_3 =>
      intro fault t₁ t₂ left
      exact .pure (.of_twins left)
    case refine_4 =>
      intro a t₁ b t₂ given
      obtain ⟨rfl, ⟨same, sound', twins'⟩, -⟩ := given
      obtain ⟨s₁, f₁⟩ := t₁
      obtain ⟨s₂, f₂⟩ := t₂
      obtain rfl : s₁ = s₂ := same
      refine (ih sound' twins').bind ?_
      intro rows u₁ rows' u₂ taken
      exact .pure (taken.map (fun answer => (a :: answer.1, answer.2)) (fun _ short => short) id)

end Cursor

end RowStore
