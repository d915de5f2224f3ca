import OrderStream.Watcher.NoChangeLost

namespace OrderStream

open Transition

namespace Lifecycle

def opened (initial cache : Orders) : Lifecycle :=
  { initial, cache, phase := .streaming 0 }

theorem sound_opened {initial cache : Orders} (accurate : (opened initial cache).Current) :
    (opened initial cache).SoundIn (.streaming 0) := by
  refine ⟨⟨Or.inl rfl, ?_, ?_⟩, 0, accurate.catchesUp⟩
  · intro _ orderId _
    exact accurate orderId
  · intro _ write member
    cases member

theorem sound_of_uninterrupted {initial cache : Orders}
    (accurate : (opened initial cache).Current) {actions : List LifecycleAction}
    {state : Lifecycle} (uninterrupted : .openStream ∉ actions)
    (reached : exec step (opened initial cache) actions = some state) :
    state.ValidHistory ∧ state.SoundIn state.phase := by
  have along : Along step (fun _ => OpensFresh) (opened initial cache) actions := by
    intro before action after split middle _ opens
    subst opens
    refine absurd ?_ uninterrupted
    rw [split]
    exact List.mem_append_right before List.mem_cons_self
  refine exec_induction_along (motive := fun _ state =>
    state.ValidHistory ∧ state.SoundIn state.phase) ⟨?_, ?_⟩ ?_ along reached
  · intro position write found
    cases found
  · exact sound_opened accurate
  · intro _ middle action finish _ holds opens stepped
    exact ⟨validHistory_step holds.1 stepped, sound_step holds.1 holds.2 opens stepped⟩

/-- Once the stream has delivered every write the cache has the ids of the collection,
and in every field an equal value, or the same one where that does not equal itself. -/
theorem cache_converges {initial cache : Orders}
    (accurate : (opened initial cache).Current) {actions : List LifecycleAction}
    {state : Lifecycle} (uninterrupted : .openStream ∉ actions)
    (reached : exec step (opened initial cache) actions = some state)
    (drained : state.drained = true) :
    (∀ orderId, orderId ∈ state.cache.keys ↔ orderId ∈ state.orders.keys) ∧
      ∀ orderId cached stored, state.cache.get? orderId = some cached →
        state.orders.get? orderId = some stored →
          ∀ field, isIgnored field = false → (cached.get field).Same (stored.get field) := by
  have sound := sound_of_uninterrupted accurate uninterrupted reached
  have current := current_of_drained sound.2 drained
  constructor
  · intro orderId
    rw [PyDict.mem_keys_iff, PyDict.mem_keys_iff, ← Option.isSome_iff_exists,
      ← Option.isSome_iff_exists, relIsSome (current orderId)]
  · intro orderId cached stored known found
    have shows := current orderId
    rw [Shows, known, found] at shows
    cases shows with
    | some same => exact same

/-! An order inserted and repriced, where the insert is processed late, and one whose
price is no number. -/

def repricedOrder : List LifecycleAction :=
  [.write (.insert "1" (.ofList [("_id", .str "1"), ("price", .int 10)])),
    .write (.update "1" (.ofList [("_id", .str "1"), ("price", .int 20)])),
    .deliver 2 none none "first", .appended, .added,
    .deliver 2 none none "second", .appended, .added]

theorem cache_converges_of_repriced :
    ∃ state, exec step (opened ∅ ∅) repricedOrder = some state ∧
      ∀ orderId, orderId ∈ state.cache.keys ↔ orderId ∈ state.orders.keys := by
  have facts : (exec step (opened ∅ ∅) repricedOrder).map Lifecycle.drained = some true := by
    decide +kernel
  obtain ⟨state, reached, drained⟩ := Option.map_eq_some_iff.mp facts
  refine ⟨state, reached, ?_⟩
  apply (cache_converges _ _ reached drained).1
  · intro orderId
    exact .none
  · simp [repricedOrder]

def pricelessOrder : List LifecycleAction :=
  [.write (.insert "1" (.ofList [("_id", .str "1"), ("price", .float .nan)])),
    .deliver 1 none none "first", .appended, .added]

theorem nan_does_not_converge :
    ∃ state cached stored, exec step (opened ∅ ∅) pricelessOrder = some state ∧
      state.drained = true ∧ state.cache.get? "1" = some cached ∧
      state.orders.get? "1" = some stored ∧
      ¬∀ field, isIgnored field = false →
        (cached.get field).pyEq (stored.get field) = true := by
  have facts : (exec step (opened ∅ ∅) pricelessOrder).map (fun state =>
      (state.drained, (state.cache.get? "1").isSome, (state.orders.get? "1").isSome,
        (Doc.getOr (state.cache.get? "1") "price").pyEq
          (Doc.getOr (state.orders.get? "1") "price"))) =
        some (true, true, true, false) := by
    decide +kernel
  obtain ⟨state, reached, values⟩ := Option.map_eq_some_iff.mp facts
  simp only [Prod.mk.injEq] at values
  obtain ⟨drained, known, found, unequal⟩ := values
  obtain ⟨cached, known⟩ := Option.isSome_iff_exists.mp known
  obtain ⟨stored, found⟩ := Option.isSome_iff_exists.mp found
  rw [known, found] at unequal
  refine ⟨state, cached, stored, reached, drained, known, found, ?_⟩
  intro equal
  have same := equal "price" rfl
  exact Bool.false_ne_true (unequal.symm.trans same)

end Lifecycle

end OrderStream
