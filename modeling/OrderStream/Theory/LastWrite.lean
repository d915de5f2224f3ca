import Mathlib.Data.List.Induction

namespace LastWrite

variable {σ : Type u} {ε : Type v} {κ : Type w} {ν : Type x} [DecidableEq κ]

/-- An update leaves a value at its key, if it is valid, and every other key as it was. -/
structure Law (apply : σ → ε → σ) (get : σ → κ → ν) (key : ε → κ) (value : ε → ν)
    (valid : ε → Prop) : Prop where
  own : ∀ state update, valid update → get (apply state update) (key update) = value update
  other : ∀ state update target, target ≠ key update →
    get (apply state update) target = get state target

def updatesOf (key : ε → κ) (target : κ) (updates : List ε) : List ε :=
  updates.filter fun update => decide (key update = target)

variable {apply : σ → ε → σ} {get : σ → κ → ν} {key : ε → κ} {value : ε → ν}
  {valid : ε → Prop} {updates : List ε} {target : κ}

theorem mem_updatesOf {update : ε} :
    update ∈ updatesOf key target updates ↔ update ∈ updates ∧ key update = target := by
  rw [updatesOf, List.mem_filter, decide_eq_true_iff]

theorem updatesOf_snoc_self (updates : List ε) (update : ε) :
    updatesOf key (key update) (updates ++ [update]) =
      updatesOf key (key update) updates ++ [update] := by
  simp [updatesOf]

theorem updatesOf_snoc_of_ne (updates : List ε) {update : ε} (ne : target ≠ key update) :
    updatesOf key target (updates ++ [update]) = updatesOf key target updates := by
  simp [updatesOf, ne.symm]

theorem updatesOf_eq_nil (absent : ∀ update ∈ updates, key update ≠ target) :
    updatesOf key target updates = [] := by
  rw [updatesOf, List.filter_eq_nil_iff]
  intro update member
  simpa using absent update member

/-- A key reads as its last update left it. -/
theorem Law.get_foldl (law : Law apply get key value valid)
    (all : ∀ update ∈ updates, valid update) (state : σ) (target : κ) :
    get (updates.foldl apply state) target =
      ((updatesOf key target updates).getLast?.map value).getD (get state target) := by
  induction updates using List.reverseRecOn with
  | nil => rfl
  | append_singleton updates last ih =>
      rw [List.foldl_append, List.foldl_cons, List.foldl_nil]
      by_cases own : target = key last
      · subst own
        rw [updatesOf_snoc_self, List.getLast?_concat]
        exact law.own _ last (all last (List.mem_append_right _ List.mem_cons_self))
      · rw [updatesOf_snoc_of_ne _ own, law.other _ last target own]
        exact ih fun update member => all update (List.mem_append_left _ member)

theorem Law.get_foldl_of_absent (law : Law apply get key value valid)
    (all : ∀ update ∈ updates, valid update) (state : σ)
    (absent : ∀ update ∈ updates, key update ≠ target) :
    get (updates.foldl apply state) target = get state target := by
  rw [law.get_foldl all, updatesOf_eq_nil absent]
  rfl

end LastWrite
