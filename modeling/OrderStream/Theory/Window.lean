import Mathlib.Data.List.DropRight
import Mathlib.Data.List.Induction
import Mathlib.Order.Defs.PartialOrder

/-! Buffers that keep the last so many of the readings taken, in order. -/

namespace Window

variable {α : Type u}

theorem rtake_snoc (size : Nat) (readings : List α) (reading : α) :
    (readings.rtake size ++ [reading]).drop ((readings.rtake size).length + 1 - size) =
      (readings ++ [reading]).rtake size := by
  unfold List.rtake
  cases size with
  | zero => simp
  | succ size =>
      rw [List.length_drop, List.length_append, List.length_singleton]
      by_cases full : readings.length ≤ size
      · have nothing : readings.length - (size + 1) = 0 := by omega
        have none : readings.length - 0 + 1 - (size + 1) = 0 := by omega
        have fits : readings.length + 1 - (size + 1) = 0 := by omega
        rw [nothing, none, fits]
        rfl
      · have one : readings.length - (readings.length - (size + 1)) + 1 - (size + 1) = 1 := by
          omega
        have inside : readings.length - (size + 1) + 1 ≤ readings.length := by omega
        have shifted : readings.length + 1 - (size + 1) = readings.length - (size + 1) + 1 := by
          omega
        rw [one, shifted, List.drop_append_of_le_length inside, ← List.drop_drop,
          List.drop_append_of_le_length]
        rw [List.length_drop]
        omega

variable [Preorder α]

theorem ordered_snoc {readings : List α} {reading : α}
    (ordered : readings.Pairwise (· ≤ ·)) (latest : ∀ earlier ∈ readings, earlier ≤ reading) :
    (readings ++ [reading]).Pairwise (· ≤ ·) := by
  apply List.pairwise_append.mpr
  refine ⟨ordered, List.pairwise_singleton _ _, ?_⟩
  intro earlier member last same
  rw [List.mem_singleton.mp same]
  exact latest earlier member

/-- The buffer counts the recent readings among all that were taken, up to its size. -/
theorem countP_rtake (size : Nat) {readings : List α} (ordered : readings.Pairwise (· ≤ ·))
    {recent : α → Bool} (onward : ∀ a b, a ≤ b → recent a = true → recent b = true) :
    (readings.rtake size).countP recent = min size (readings.countP recent) := by
  induction readings using List.reverseRecOn generalizing size with
  | nil => simp
  | append_singleton readings reading ih =>
      obtain ⟨earlier, -, latest⟩ := List.pairwise_append.mp ordered
      cases size with
      | zero => simp
      | succ size =>
          rw [List.rtake_concat_succ, List.countP_append, List.countP_append, ih size earlier]
          cases taken : recent reading with
          | true =>
              rw [List.countP_singleton, if_pos taken]
              omega
          | false =>
              have none : readings.countP recent = 0 := by
                rw [List.countP_eq_zero]
                intro before member old
                have later := onward before reading (latest before member reading (by simp)) old
                rw [taken] at later
                cases later
              simp [none, taken]

end Window
