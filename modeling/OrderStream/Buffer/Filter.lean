import OrderStream.Auth
import OrderStream.Buffer.Conservation

/-! What a filtered subscriber sees of coalesced events. -/

namespace OrderStream

open Transition

/-- Every event added that the subscription matches is one of the events of an emission
that it matches too. -/
structure HidesNothing (subscription : Subscription) (added : List Event)
    (emitted : List Emission) : Prop where
  partition : (emitted.flatMap Emission.members).Perm added
  covers : ∀ emission ∈ emitted, ∀ event ∈ emission.members,
    subscription.matches event = true → subscription.matches emission.event = true

/-- The filter that let through some event of a window lets through the intent of the
last event and the owner of what the last event left, or of what was there before the
first. -/
def WindowAllowed (subscription : Subscription) (window : List Event) : Prop :=
  ∀ first rest last, window = first :: rest → rest.getLast? = some last →
    ∀ event ∈ window, subscription.matches event = true →
      subscription.AllowsIntent last.intent ∧
        subscription.AllowsOwner (filteredDoc first.before last.after)

theorem StandsFor.covers_iff (subscription : Subscription) {event : Event}
    {members : List Event} (stands : StandsFor event members) :
    (∀ member ∈ members, subscription.matches member = true →
        subscription.matches event = true) ↔ WindowAllowed subscription members := by
  obtain ⟨first, rest, rfl, rfl⟩ := stands
  cases found : rest.getLast? with
  | none =>
      have single : rest = [] := List.getLast?_eq_none_iff.mp found
      subst single
      constructor
      · intro _ other others last equal ends
        cases equal
        cases ends
      · intro _ member merged
        rw [List.mem_singleton.mp merged]
        exact id
  | some last =>
      constructor
      · intro covers other others final equal ends member merged matched
        cases equal
        rw [found] at ends
        cases ends
        exact (subscription.matches_iff _).mp (covers member merged matched)
      · intro allowed member merged matched
        exact (subscription.matches_iff _).mpr
          (allowed first rest last rfl found member merged matched)

namespace CohesionBuffer

/-- After the final `flush_all` the emissions hide nothing from a subscription iff it
allows every window. -/
theorem hides_nothing_iff (windows : Windows) (subscription : Subscription)
    (before after : List BufferAction) {buffer : CohesionBuffer}
    (reached : exec (step windows) {} (before ++ .flushAll :: after) = some buffer)
    (final : addedEvents after = []) (returned : buffer.flushes.flatten = []) :
    HidesNothing subscription (addedEvents (before ++ .flushAll :: after)) buffer.emitted ↔
      ∀ emission ∈ buffer.emitted, WindowAllowed subscription emission.members := by
  have allowed (emission : Emission) (emitted : emission ∈ buffer.emitted) :=
    (emissions_stand_for reached emission emitted).covers_iff subscription
  constructor
  · intro hidesNothing emission emitted
    exact (allowed emission emitted).mp (hidesNothing.covers emission emitted)
  · intro windowsAllowed
    constructor
    · exact emitted_of_flushed reached final returned
    · intro emission emitted
      exact (allowed emission emitted).mpr (windowsAllowed emission emitted)

def repricedAndShipped : List BufferAction :=
  [.add repriced, .add shipped, .flushAll, .drain 0]

theorem repricing_is_hidden :
    ∃ buffer, exec (step sampleWindows) {} repricedAndShipped = some buffer ∧
      buffer.flushes.flatten = [] ∧
      ¬HidesNothing { intents := some {.priceCorrection} }
        (addedEvents repricedAndShipped) buffer.emitted := by
  let prices : Subscription := { intents := some {.priceCorrection} }
  have facts : (exec (step sampleWindows) {} repricedAndShipped).map (fun buffer =>
      (buffer.flushes.flatten.length,
        buffer.emitted.map fun emission =>
          (emission.members.any prices.matches, prices.matches emission.event))) =
        some (0, [(true, false)]) := by
    decide +kernel
  obtain ⟨buffer, reached, values⟩ := Option.map_eq_some_iff.mp facts
  simp only [Prod.mk.injEq, List.length_eq_zero_iff, List.map_eq_singleton_iff] at values
  obtain ⟨returned, emission, emitted, some, hidden⟩ := values
  refine ⟨buffer, reached, returned, ?_⟩
  intro hidesNothing
  obtain ⟨event, merged, matched⟩ := List.any_eq_true.mp some
  have shown := hidesNothing.covers emission (by simp [emitted]) event merged matched
  exact Bool.false_ne_true (hidden.symm.trans shown)

theorem shipment_is_not_hidden :
    ∃ buffer, exec (step sampleWindows) {} repricedAndShipped = some buffer ∧
      HidesNothing { intents := some {.statusChange} }
        (addedEvents repricedAndShipped) buffer.emitted := by
  have facts : (exec (step sampleWindows) {} repricedAndShipped).map (fun buffer =>
      (buffer.flushes.flatten.length,
        buffer.emitted.map fun emission => emission.members.getLast?.map Event.intent)) =
        some (0, [some .statusChange]) := by
    decide +kernel
  obtain ⟨buffer, reached, values⟩ := Option.map_eq_some_iff.mp facts
  simp only [Prod.mk.injEq, List.length_eq_zero_iff, List.map_eq_singleton_iff] at values
  obtain ⟨returned, emission, emitted, ends⟩ := values
  refine ⟨buffer, reached, ?_⟩
  refine (hides_nothing_iff sampleWindows _ [.add repriced, .add shipped] [.drain 0]
    reached rfl returned).mpr ?_
  intro one member first rest last window found event merged matched
  rw [emitted, List.mem_singleton] at member
  subst member
  rw [window, List.getLast?_cons, found] at ends
  constructor
  · intro intents equal
    cases equal
    exact Finset.mem_singleton.mpr (Option.some.inj ends)
  · intro customer equal
    cases equal

end CohesionBuffer

end OrderStream
