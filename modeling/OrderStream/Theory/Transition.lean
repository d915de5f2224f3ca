import Mathlib.Data.List.Induction

/-! Finite runs of a system whose next state is a partial function of the state
and an action. -/

namespace Transition

variable {σ : Type u} {α : Type v}

def exec (step : σ → α → Option σ) : σ → List α → Option σ
  | state, [] => some state
  | state, action :: rest => (step state action).bind fun next => exec step next rest

variable {step : σ → α → Option σ} {start : σ}

@[simp] theorem exec_nil (state : σ) : exec step state [] = some state := rfl

theorem exec_append (state : σ) (first second : List α) :
    exec step state (first ++ second) =
      (exec step state first).bind fun middle => exec step middle second := by
  induction first generalizing state with
  | nil => rfl
  | cons action first ih =>
      simp only [List.cons_append, exec]
      cases step state action with
      | none => rfl
      | some next => exact ih next

theorem exec_snoc {state finish : σ} {actions : List α} {action : α} :
    exec step state (actions ++ [action]) = some finish ↔
      ∃ middle, exec step state actions = some middle ∧
        step middle action = some finish := by
  rw [exec_append, Option.bind_eq_some_iff]
  constructor
  · rintro ⟨middle, reached, last⟩
    refine ⟨middle, reached, ?_⟩
    simpa [exec, Option.bind_eq_some_iff] using last
  · rintro ⟨middle, reached, last⟩
    exact ⟨middle, reached, by simp [exec, last]⟩

theorem exec_append_some {state finish : σ} {first second : List α} :
    exec step state (first ++ second) = some finish ↔
      ∃ middle, exec step state first = some middle ∧
        exec step middle second = some finish := by
  rw [exec_append, Option.bind_eq_some_iff]

/-- What holds at the start and survives each step holds after every run.  The
motive may depend on the actions taken so far. -/
theorem exec_induction {motive : List α → σ → Prop}
    (initial : motive [] start)
    (next : ∀ actions middle action finish,
      exec step start actions = some middle → motive actions middle →
        step middle action = some finish → motive (actions ++ [action]) finish)
    {actions : List α} {finish : σ}
    (reached : exec step start actions = some finish) : motive actions finish := by
  induction actions using List.reverseRecOn generalizing finish with
  | nil =>
      cases reached
      exact initial
  | append_singleton actions action ih =>
      obtain ⟨middle, before, last⟩ := exec_snoc.mp reached
      exact next actions middle action finish before (ih before) last

theorem exec_invariant {motive : σ → Prop} (initial : motive start)
    (next : ∀ state action finish,
      motive state → step state action = some finish → motive finish)
    {actions : List α} {finish : σ}
    (reached : exec step start actions = some finish) : motive finish :=
  exec_induction (motive := fun _ => motive) initial
    (fun _ middle action finish _ holds last => next middle action finish holds last)
    reached

/-- Every step of the run is taken in a state that meets a condition. -/
def Along (step : σ → α → Option σ) (condition : List α → σ → α → Prop)
    (start : σ) (actions : List α) : Prop :=
  ∀ before action after, actions = before ++ action :: after →
    ∀ state, exec step start before = some state → condition before state action

theorem along_nil {condition : List α → σ → α → Prop} :
    Along step condition start [] := by
  intro before action after equal
  simp at equal

theorem along_cons {condition : List α → σ → α → Prop} {action : α} {rest : List α} :
    Along step condition start (action :: rest) ↔
      condition [] start action ∧
        ∀ next, step start action = some next →
          Along step (fun before => condition (action :: before)) next rest := by
  constructor
  · intro along
    refine ⟨along [] action rest rfl start rfl, ?_⟩
    intro next stepped before other after split state reached
    exact along (action :: before) other after (by simp [split]) state
      (by simp [exec, stepped, reached])
  · rintro ⟨first, along⟩ before other after split state reached
    cases before with
    | nil =>
        cases split
        cases reached
        exact first
    | cons taken before =>
        obtain ⟨rfl, rest⟩ := List.cons.inj split
        obtain ⟨next, stepped, reached⟩ := Option.bind_eq_some_iff.mp reached
        exact along next stepped before other after rest state reached

def decideAlong (step : σ → α → Option σ) :
    (condition : List α → σ → α → Prop) →
      (∀ before state action, Decidable (condition before state action)) →
        (start : σ) → (actions : List α) → Decidable (Along step condition start actions)
  | _, _, _, [] => isTrue along_nil
  | condition, decides, start, action :: rest =>
      have := decides [] start action
      have (next : σ) := decideAlong step (fun before => condition (action :: before))
        (fun before => decides (action :: before)) next rest
      decidable_of_iff
        (condition [] start action ∧ ∀ next ∈ step start action,
          Along step (fun before => condition (action :: before)) next rest)
        along_cons.symm

instance {condition : List α → σ → α → Prop}
    [decides : ∀ before state action, Decidable (condition before state action)]
    (actions : List α) : Decidable (Along step condition start actions) :=
  decideAlong step condition decides start actions

theorem along_snoc {condition : List α → σ → α → Prop} {actions : List α}
    {action : α} :
    Along step condition start (actions ++ [action]) ↔
      Along step condition start actions ∧
        ∀ state, exec step start actions = some state →
          condition actions state action := by
  constructor
  · intro along
    constructor
    · intro before other after equal
      exact along before other (after ++ [action]) (by simp [equal])
    · exact along actions action [] rfl
  · rintro ⟨along, last⟩ before other after equal
    rcases List.eq_nil_or_concat after with rfl | ⟨rest, final, rfl⟩
    · obtain ⟨rfl, same⟩ := List.append_inj' equal rfl
      cases same
      exact last
    · rw [List.concat_eq_append, ← List.cons_append, ← List.append_assoc] at equal
      obtain ⟨rfl, -⟩ := List.append_inj' equal rfl
      exact along before other rest rfl

theorem along_append_left {condition : List α → σ → α → Prop} {first second : List α}
    (along : Along step condition start (first ++ second)) :
    Along step condition start first := by
  intro before action after split
  exact along before action (after ++ second) (by simp [split])

/-- The induction rule for runs whose steps all meet a condition. -/
theorem exec_induction_along {condition : List α → σ → α → Prop}
    {motive : List α → σ → Prop}
    (initial : motive [] start)
    (next : ∀ actions middle action finish,
      exec step start actions = some middle → motive actions middle →
        condition actions middle action → step middle action = some finish →
          motive (actions ++ [action]) finish)
    {actions : List α} {finish : σ}
    (along : Along step condition start actions)
    (reached : exec step start actions = some finish) : motive actions finish := by
  refine exec_induction
    (motive := fun actions finish =>
      Along step condition start actions → motive actions finish)
    (fun _ => initial) ?_ reached along
  intro actions middle action finish before holds last along
  obtain ⟨earlier, met⟩ := along_snoc.mp along
  exact next actions middle action finish before (holds earlier) (met middle before) last

theorem forall_prefix_snoc {holds : σ → Prop} {actions : List α} {action : α} {finish : σ}
    (reached : exec step start (actions ++ [action]) = some finish) :
    (∀ before after state, actions ++ [action] = before ++ after →
        exec step start before = some state → holds state) ↔
      (∀ before after state, actions = before ++ after →
        exec step start before = some state → holds state) ∧ holds finish := by
  constructor
  · intro all
    constructor
    · intro before after state split arrived
      exact all before (after ++ [action]) state (by simp [split]) arrived
    · exact all (actions ++ [action]) [] finish (by simp) reached
  · rintro ⟨earlier, last⟩ before after state split arrived
    rcases List.eq_nil_or_concat after with rfl | ⟨rest, final, rfl⟩
    · rw [List.append_nil] at split
      subst split
      cases reached.symm.trans arrived
      exact last
    · rw [List.concat_eq_append, ← List.append_assoc] at split
      exact earlier before rest state (List.append_inj' split rfl).1 arrived

/-- A property holds throughout a run iff every step meets the condition, where a step
from a sound state keeps the property iff it meets the condition. -/
theorem always_iff_along (sound : σ → Prop) {holds : σ → Prop} {condition : σ → α → Prop}
    (initial : sound start) (begins : holds start)
    (next : ∀ state action finish, sound state → step state action = some finish →
      (holds finish ↔ condition state action) ∧ (condition state action → sound finish))
    {actions : List α} {finish : σ} (reached : exec step start actions = some finish) :
    (∀ before after state, actions = before ++ after →
        exec step start before = some state → holds state) ↔
      Along step (fun _ => condition) start actions := by
  induction actions using List.reverseRecOn generalizing finish with
  | nil =>
      refine iff_of_true ?_ along_nil
      intro before after state split arrived
      rw [(List.append_eq_nil_iff.mp split.symm).1] at arrived
      cases arrived
      exact begins
  | append_singleton actions action ih =>
      obtain ⟨middle, before, last⟩ := exec_snoc.mp reached
      rw [forall_prefix_snoc reached, along_snoc, ih before]
      refine and_congr_right ?_
      intro along
      have arrived : sound middle :=
        exec_induction_along (motive := fun _ => sound) initial
          (fun _ state action finish _ holds met stepped =>
            (next state action finish holds stepped).2 met) along before
      rw [(next middle action finish arrived last).1]
      constructor
      · intro met state same
        cases before.symm.trans same
        exact met
      · intro met
        exact met middle before

section

variable {β : Type w}

def observed (step : σ → α → Option σ) (observe : σ → α → σ → List β) : σ → List α → List β
  | _, [] => []
  | state, action :: rest =>
      match step state action with
      | none => []
      | some next => observe state action next ++ observed step observe next rest

theorem observed_snoc {observe : σ → α → σ → List β} {middle finish : σ} {actions : List α}
    {action : α} (reached : exec step start actions = some middle)
    (stepped : step middle action = some finish) :
    observed step observe start (actions ++ [action]) =
      observed step observe start actions ++ observe middle action finish := by
  induction actions generalizing start with
  | nil =>
      cases reached
      simp [observed, stepped]
  | cons taken actions ih =>
      obtain ⟨next, first, reached⟩ := Option.bind_eq_some_iff.mp reached
      rw [List.cons_append, observed, observed, first]
      dsimp only
      rw [ih reached, List.append_assoc]

end

end Transition
