import Mathlib.Data.List.Induction

/-! Updates that overwrite some places of a state and leave the others, and what applying a
stretch of them again comes to. -/

namespace Overwrite

variable {σ : Type u} {ε : Type v} {κ : Type w} {ν : Type x}

/-- `written update place` is what the update leaves at the place, if it writes there. -/
structure Law (apply : σ → ε → σ) (read : σ → κ → ν) (written : ε → κ → Option ν) :
    Prop where
  read_apply : ∀ state update place,
    read (apply state update) place = (written update place).getD (read state place)

def lastWritten (written : ε → κ → Option ν) (updates : List ε) (place : κ) : Option ν :=
  (updates.filterMap fun update => written update place).getLast?

variable {apply : σ → ε → σ} {read : σ → κ → ν} {written : ε → κ → Option ν}
  {first second : List ε}

theorem lastWritten_append (first second : List ε) (place : κ) :
    lastWritten written (first ++ second) place =
      (lastWritten written second place).or (lastWritten written first place) := by
  rw [lastWritten, List.filterMap_append, List.getLast?_append]
  rfl

theorem lastWritten_snoc (updates : List ε) (update : ε) (place : κ) :
    lastWritten written (updates ++ [update]) place =
      (written update place).or (lastWritten written updates place) := by
  rw [lastWritten_append]
  congr 1
  cases wrote : written update place with
  | none => simp [lastWritten, wrote]
  | some value => simp [lastWritten, wrote]

theorem lastWritten_congr_append (more : List ε)
    (same : lastWritten written first = lastWritten written second) :
    lastWritten written (first ++ more) = lastWritten written (second ++ more) := by
  funext place
  rw [lastWritten_append, lastWritten_append, same]

/-- A stretch that was just applied may be applied again before what follows it. -/
theorem lastWritten_replayed (earlier again later : List ε) :
    lastWritten written (earlier ++ again ++ (again ++ later)) =
      lastWritten written (earlier ++ again ++ later) := by
  funext place
  simp only [lastWritten_append, Option.or_assoc]
  congr 1
  rw [← Option.or_assoc, Option.or_self]

end Overwrite
