import OrderStream.Watcher.NoChangeLost

/-! `POST /admin/reset` beside the lifecycle of the watcher: whether the cache recovers from
being cleared. -/

namespace OrderStream

open Transition

/-- How far `reset_demo` has come.  `written` are the orders that others wrote since it
began. -/
inductive CacheResetPhase where
  | idle
  | deleting (written : List String)
  | deleted

def CacheResetPhase.noted (phase : CacheResetPhase) : LifecycleAction → CacheResetPhase
  | .write write =>
      match phase with
      | .deleting written => .deleting (write.orderId :: written)
      | .idle | .deleted => phase
  | _ => phase

structure CacheReset where
  watcher : Lifecycle
  reset : CacheResetPhase := .idle

/-- `delete_many` deletes the orders one by one.  Between `deleteEnd` and `clearCache` the
route deletes the events and refreshes the head, neither of which the watcher reads. -/
inductive CacheResetAction where
  | watcher (action : LifecycleAction)
  | start
  | deleteOne (orderId : String)
  | deleteEnd
  | clearCache
  | fail

namespace Lifecycle

/-- `watcher._cache.clear()`.  A scan that is under way does not read again what it drops. -/
def cleared (state : Lifecycle) : Lifecycle :=
  { state with cache := ∅, stale := state.cache.keys ++ state.stale }

def resumesAt (state : Lifecycle) : Option Nat :=
  match state.phase with
  | .scanning _ | .stopped => none
  | .down => state.token
  | .streaming position | .appending position _ => some position
  | .adding position => some (position + 1)

def OnlyUpdated (state : Lifecycle) (position : Nat) (orderId : String) : Prop :=
  ∀ write ∈ state.writes.drop position, write.orderId = orderId → write.op = .update

/-- Every order that the processed changes left in the collection is still to be inserted,
replaced or deleted. -/
def Superseded (state : Lifecycle) : Prop :=
  ∀ position, state.resumesAt = some position → ∀ orderId,
    ((version state.initial state.writes position).get? orderId).isSome = true →
      ¬state.OnlyUpdated position orderId

end Lifecycle

namespace CacheReset

def step (state : CacheReset) : CacheResetAction → Option CacheReset
  | .watcher action =>
      (Lifecycle.step state.watcher action).map fun watcher =>
        { watcher, reset := state.reset.noted action }
  | .start =>
      match state.reset with
      | .idle => some { state with reset := .deleting [] }
      | .deleting _ | .deleted => none
  | .deleteOne orderId =>
      match state.reset with
      | .deleting _ =>
          (Lifecycle.step state.watcher (.write (.delete orderId))).map fun watcher =>
            { state with watcher }
      | .idle | .deleted => none
  | .deleteEnd =>
      match state.reset with
      | .deleting written =>
          -- what nobody wrote meanwhile has been deleted
          if ∀ orderId ∈ state.watcher.orders.keys, orderId ∈ written then
            some { state with reset := .deleted }
          else none
      | .idle | .deleted => none
  | .clearCache =>
      match state.reset with
      | .deleted => some { watcher := state.watcher.cleared, reset := .idle }
      | .idle | .deleting _ => none
  | .fail => some { state with reset := .idle }

inductive Step (state : CacheReset) : CacheResetAction → CacheReset → Prop where
  | watched {action : LifecycleAction} {watcher : Lifecycle} :
      Lifecycle.step state.watcher action = some watcher →
        Step state (.watcher action) { watcher, reset := state.reset.noted action }
  | started : Step state .start { state with reset := .deleting [] }
  | deletedOne {orderId : String} {watcher : Lifecycle} {written : List String} :
      state.reset = .deleting written →
        Lifecycle.step state.watcher (.write (.delete orderId)) = some watcher →
          Step state (.deleteOne orderId) { state with watcher }
  | deleted {written : List String} : state.reset = .deleting written →
      (∀ orderId ∈ state.watcher.orders.keys, orderId ∈ written) →
        Step state .deleteEnd { state with reset := .deleted }
  | cleared : state.reset = .deleted →
      Step state .clearCache { watcher := state.watcher.cleared, reset := .idle }
  | failed : Step state .fail { state with reset := .idle }

theorem step_cases {state next : CacheReset} {action : CacheResetAction}
    (stepped : step state action = some next) : Step state action next := by
  cases action with
  | watcher action =>
      obtain ⟨watcher, moved, rfl⟩ := Option.map_eq_some_iff.mp stepped
      exact .watched moved
  | start =>
      simp only [step] at stepped
      split at stepped
      · cases stepped
        exact .started
      all_goals cases stepped
  | deleteOne orderId =>
      simp only [step] at stepped
      split at stepped
      · obtain ⟨watcher, moved, rfl⟩ := Option.map_eq_some_iff.mp stepped
        exact .deletedOne ‹_› moved
      all_goals cases stepped
  | deleteEnd =>
      simp only [step] at stepped
      split at stepped
      · split at stepped
        · cases stepped
          exact .deleted ‹_› ‹_›
        · cases stepped
      all_goals cases stepped
  | clearCache =>
      simp only [step] at stepped
      split at stepped
      · cases stepped
        exact .cleared ‹_›
      all_goals cases stepped
  | fail =>
      cases stepped
      exact .failed

end CacheReset

namespace Lifecycle

/-- As for a cache that catches up, except that an order may be missing while a change is
still to come that puts it into the cache or takes it out. -/
structure Recovers (state : Lifecycle) (position applied : Nat) : Prop where
  resumed : applied = position ∨ applied = position + 1
  inside : applied ≤ state.writes.length
  settled : ∀ orderId, state.Untouched position orderId → state.Shows orderId
  present : ∀ orderId, state.OnlyUpdated position orderId →
    (state.cache.get? orderId).isSome =
      ((version state.initial state.writes applied).get? orderId).isSome

def RecoversFrom (state : Lifecycle) (position : Nat) : Prop :=
  ∃ applied, state.Recovers position applied

def RecoversIn (state : Lifecycle) : WatcherPhase → Prop
  | .scanning reconciling => state.SoundIn (.scanning reconciling)
  | .stopped => True
  | .down =>
      (∀ position, state.token = some position → state.RecoversFrom position) ∧
        (state.token = none → state.ShowsRead)
  | .streaming position => state.Positioned position ∧ state.RecoversFrom position
  | .appending position args =>
      state.Positioned position ∧ state.RecoversFrom position ∧
        ∃ write, state.Prepares position args write
  | .adding position =>
      state.Positioned position ∧ state.Recovers (position + 1) (position + 1)

section

variable {state : Lifecycle} {write : Write} {position applied : Nat}

theorem Untouched.onlyUpdated {orderId : String} (untouched : state.Untouched position orderId) :
    state.OnlyUpdated position orderId := by
  intro write member own
  exact absurd own (untouched write member)

theorem OnlyUpdated.later {orderId : String} (updated : state.OnlyUpdated position orderId) :
    state.OnlyUpdated (position + 1) orderId := by
  intro write member
  rw [← List.drop_drop] at member
  exact updated write (List.mem_of_mem_drop member)

theorem OnlyUpdated.back {orderId : String} (updated : state.OnlyUpdated (position + 1) orderId)
    (found : state.writes[position]? = some write)
    (own : write.orderId = orderId → write.op = .update) :
    state.OnlyUpdated position orderId := by
  obtain ⟨inside, equal⟩ := List.getElem?_eq_some_iff.mp found
  unfold OnlyUpdated
  rw [List.drop_eq_getElem_cons inside, equal]
  exact List.forall_mem_cons.mpr ⟨own, updated⟩

theorem onlyUpdated_of_wrote (inside : position ≤ state.writes.length) {orderId : String}
    (updated : (state.wrote write).OnlyUpdated position orderId) :
    state.OnlyUpdated position orderId := by
  intro earlier member
  apply updated earlier
  unfold Lifecycle.wrote
  rw [List.drop_append_of_le_length inside]
  exact List.mem_append_left _ member

theorem Recovers.reaches (recovers : state.Recovers position applied) :
    position ≤ state.writes.length := by
  have inside := recovers.inside
  rcases recovers.resumed with rfl | rfl
  · exact inside
  · exact Nat.le_of_succ_le inside

theorem Recovers.wrote (recovers : state.Recovers position applied) (write : Write) :
    (state.wrote write).Recovers position applied := by
  refine ⟨recovers.resumed, ?_, ?_, ?_⟩
  · unfold Lifecycle.wrote
    rw [List.length_append]
    exact Nat.le_add_right_of_le recovers.inside
  · intro orderId untouched
    obtain ⟨earlier, ne⟩ := (untouched_wrote recovers.reaches).mp untouched
    exact (shows_wrote ne.symm).mpr (recovers.settled orderId earlier)
  · intro orderId updated
    have known := recovers.present orderId (onlyUpdated_of_wrote recovers.reaches updated)
    unfold Lifecycle.wrote
    rw [version_of_le _ _ recovers.inside]
    exact known

theorem RecoversFrom.wrote (recovers : state.RecoversFrom position) (write : Write) :
    (state.wrote write).RecoversFrom position := by
  obtain ⟨applied, recovers⟩ := recovers
  exact ⟨applied, recovers.wrote write⟩

theorem RecoversIn.wrote {phase : WatcherPhase} (sound : state.RecoversIn phase)
    (write : Write) : (state.wrote write).RecoversIn phase := by
  cases phase with
  | scanning reconciling =>
      change state.SoundIn (.scanning reconciling) at sound
      exact sound.wrote write
  | stopped => trivial
  | down =>
      constructor
      · intro position saved
        exact (sound.1 position saved).wrote write
      · intro missing
        exact (sound.2 missing).wrote write
  | streaming position =>
      obtain ⟨positioned, recovers⟩ := sound
      exact ⟨positioned.wrote write, recovers.wrote write⟩
  | appending position args =>
      obtain ⟨positioned, recovers, prepared, prepares⟩ := sound
      exact ⟨positioned.wrote write, recovers.wrote write, prepared, prepares.wrote write⟩
  | adding position =>
      obtain ⟨positioned, recovers⟩ := sound
      exact ⟨positioned.wrote write, recovers.wrote write⟩

theorem Recovers.moved (recovers : state.Recovers position applied) (token : Option Nat)
    (phase : WatcherPhase) : { state with token, phase }.Recovers position applied :=
  ⟨recovers.resumed, recovers.inside, recovers.settled, recovers.present⟩

theorem Current.recovers (current : state.Current) :
    state.Recovers state.writes.length state.writes.length := by
  refine ⟨Or.inl rfl, Nat.le_refl _, ?_, ?_⟩
  · intro orderId _
    exact current orderId
  · intro orderId _
    exact relIsSome (current orderId)

theorem Recovers.back (recovers : state.Recovers (position + 1) (position + 1)) :
    state.Recovers position (position + 1) := by
  refine ⟨Or.inr rfl, recovers.inside, ?_, ?_⟩
  · intro orderId untouched
    apply recovers.settled orderId
    intro write member
    rw [← List.drop_drop] at member
    exact untouched write (List.mem_of_mem_drop member)
  · intro orderId updated
    exact recovers.present orderId updated.later

theorem Recovers.present_of_ne (recovers : state.Recovers position applied)
    (found : state.writes[position]? = some write) {orderId : String}
    (ne : orderId ≠ write.orderId) (updated : state.OnlyUpdated (position + 1) orderId) :
    (state.cache.get? orderId).isSome =
      ((version state.initial state.writes (position + 1)).get? orderId).isSome := by
  rw [recovers.present orderId (updated.back found fun own => absurd own.symm ne)]
  rcases recovers.resumed with rfl | rfl
  · rw [version_succ _ found, Write.get?_apply_of_ne _ _ ne]
  · rfl

theorem Recovers.cached (recovers : state.Recovers position applied) {orderId : String}
    {doc : Doc} (found : state.writes[position]? = some (.update orderId doc))
    (valid : (Write.update orderId doc).Valid
      (version state.initial state.writes position))
    (updated : state.OnlyUpdated (position + 1) orderId) :
    (state.cache.get? orderId).isSome = true := by
  rw [recovers.present orderId (updated.back found fun _ => rfl)]
  rcases recovers.resumed with rfl | rfl
  · exact valid
  · rw [version_succ _ found]
    exact congrArg Option.isSome (Write.get?_apply_self (.update orderId doc) _)

theorem Recovers.skip (recovers : state.Recovers position applied)
    (found : state.writes[position]? = some write)
    (valid : write.Valid (version state.initial state.writes position))
    {seen : Nat} (later : position < seen) (inside : seen ≤ state.writes.length)
    {resumeToken : Option Doc} {clusterTime : Option ClusterTime} {correlationId : String}
    (quiet : Watcher.appendArgs state.cache (state.delivered write seen resumeToken clusterTime)
      write.op correlationId = none) :
    state.Recovers (position + 1) (position + 1) := by
  obtain ⟨orderId, doc, rfl⟩ := Write.update_of_quiet quiet
  refine ⟨Or.inl rfl, Nat.le_trans later inside, ?_, ?_⟩
  · intro other untouched
    by_cases same : other = orderId
    · subst same
      have cached := recovers.cached found valid (Untouched.onlyUpdated untouched)
      exact shows_of_quiet found untouched cached later inside quiet
    · exact recovers.settled other (untouched.back found same)
  · intro other updated
    by_cases same : other = orderId
    · subst same
      rw [recovers.cached found valid updated, version_succ _ found]
      exact (congrArg Option.isSome (Write.get?_apply_self (.update other doc) _)).symm
    · exact recovers.present_of_ne found same updated

theorem Prepares.recovers {args : AppendArgs} (phase : WatcherPhase)
    (prepares : state.Prepares position args write)
    (recovers : state.Recovers position applied) :
    { state with cache := Watcher.remember state.cache args, phase }.Recovers
      (position + 1) (position + 1) := by
  obtain ⟨inside, -⟩ := List.getElem?_eq_some_iff.mp prepares.found
  have remembered : (Watcher.remember state.cache args).get? write.orderId = args.after := by
    rw [← prepares.named, Watcher.get?_remember_self]
  refine ⟨Or.inl rfl, inside, ?_, ?_⟩
  · intro orderId untouched
    by_cases same : orderId = write.orderId
    · subst same
      change Option.Rel _ ((Watcher.remember state.cache args).get? write.orderId) _
      rw [remembered]
      exact prepares.settled untouched
    · apply prepares.shows_of_ne phase same
      exact recovers.settled orderId (Untouched.back untouched prepares.found same)
  · intro orderId updated
    change ((Watcher.remember state.cache args).get? orderId).isSome =
      ((version state.initial state.writes (position + 1)).get? orderId).isSome
    by_cases same : orderId = write.orderId
    · subst same
      rw [remembered, prepares.present, version_succ _ prepares.found, Write.get?_apply_self]
    · rw [Watcher.get?_remember_of_ne _ _ (prepares.named ▸ same)]
      exact recovers.present_of_ne prepares.found same updated

theorem RecoversIn.moved {target : WatcherPhase} (sound : state.RecoversIn target)
    (phase : WatcherPhase) : { state with phase }.RecoversIn target := by
  have kept {position : Nat} (positioned : state.Positioned position) :
      { state with phase }.Positioned position :=
    ⟨positioned.token, positioned.read, positioned.stale⟩
  have resumed {position : Nat} :
      state.RecoversFrom position → { state with phase }.RecoversFrom position := by
    intro ⟨applied, recovers⟩
    exact ⟨applied, recovers.moved state.token phase⟩
  cases target with
  | scanning reconciling => exact sound
  | stopped => trivial
  | down =>
      refine ⟨?_, sound.2⟩
      intro position saved
      exact resumed (sound.1 position saved)
  | streaming position => exact ⟨kept sound.1, resumed sound.2⟩
  | appending position args =>
      obtain ⟨positioned, recovers, write, prepares⟩ := sound
      exact ⟨kept positioned, resumed recovers, write, prepares.found, prepares.named,
        prepares.present, prepares.settled⟩
  | adding position => exact ⟨kept sound.1, sound.2.moved state.token phase⟩

theorem RecoversIn.down (sound : state.RecoversIn state.phase)
    (looping : state.phase.looping = true) : state.RecoversIn .down := by
  have saved {position : Nat} (positioned : state.Positioned position)
      (recovers : state.RecoversFrom position) : state.RecoversIn .down := by
    refine ⟨?_, positioned.read⟩
    intro other token
    rcases positioned.token with missing | own
    · cases missing.symm.trans token
    · cases own.symm.trans token
      exact recovers
  cases phase : state.phase with
  | scanning reconciling =>
      rw [phase] at looping
      cases looping
  | stopped =>
      rw [phase] at looping
      cases looping
  | down =>
      rw [phase] at sound
      exact sound
  | streaming position =>
      rw [phase] at sound
      exact saved sound.1 sound.2
  | appending position args =>
      rw [phase] at sound
      exact saved sound.1 sound.2.1
  | adding position =>
      rw [phase] at sound
      exact saved sound.1 ⟨_, sound.2.back⟩

theorem RecoversIn.opened (sound : state.RecoversIn .down)
    (fresh : state.token = none → ∀ orderId ∈ state.stale, state.Shows orderId) :
    state.RecoversIn (.streaming (state.token.getD state.writes.length)) := by
  cases token : state.token with
  | some position => exact ⟨positioned_of_saved token, sound.1 position token⟩
  | none =>
      have current : state.Current := by
        intro orderId
        by_cases stale : orderId ∈ state.stale
        · exact fresh token orderId stale
        · exact sound.2 token orderId stale
      refine ⟨⟨Or.inl token, sound.2, ?_⟩, _, current.recovers⟩
      intro _ write member
      rw [Option.getD_none, List.drop_length] at member
      cases member

theorem recovers_step {next : Lifecycle} {action : LifecycleAction}
    (valid : state.ValidHistory) (sound : state.RecoversIn state.phase)
    (opens : state.OpensFresh action) (stepped : step state action = some next) :
    next.RecoversIn next.phase := by
  cases step_cases stepped with
  | wrote _ => exact sound.wrote _
  | @read reconciling _ _ scanning found =>
      change RecoversIn _ state.phase
      rw [scanning] at sound ⊢
      change state.SoundIn (.scanning reconciling) at sound
      exact sound.read found
  | @scanned reconciling scanning exhausted =>
      rw [scanning] at sound
      change state.SoundIn (.scanning reconciling) at sound
      constructor
      · intro position saved
        cases saved
      · intro _ orderId fresh
        exact sound.shows_of_scanned fresh fun missed => fresh (exhausted orderId missed)
  | opened down =>
      rw [down] at sound
      exact (sound.opened (opens rfl down)).moved _
  | skipped streaming found later inside quiet =>
      rw [streaming] at sound
      obtain ⟨-, applied, recovers⟩ := sound
      have caughtUp := recovers.skip found (valid _ _ found) later inside quiet
      exact ⟨positioned_of_saved rfl, _, caughtUp.moved _ _⟩
  | prepared streaming found later inside prepared =>
      rw [streaming] at sound
      have prepares := prepares_of_delivered found later inside prepared
      apply RecoversIn.moved
      exact ⟨sound.1, sound.2, _, prepares⟩
  | appended appending =>
      rw [appending] at sound
      obtain ⟨positioned, ⟨applied, recovers⟩, write, prepares⟩ := sound
      exact ⟨prepares.positioned _ positioned, prepares.recovers _ recovers⟩
  | added adding =>
      rw [adding] at sound
      exact ⟨positioned_of_saved rfl, _, sound.2.moved _ _⟩
  | @scanFailed _ reconciling _ scanning =>
      rw [scanning] at sound
      change state.SoundIn (.scanning reconciling) at sound
      have failed := sound.scanFailed
      cases reconciling with
      | false => trivial
      | true =>
          refine ⟨?_, failed.2⟩
          intro position saved
          cases saved
  | reconciling _ =>
      intro orderId _
      exact Or.inl rfl
  | dropped looping => exact (sound.down looping).moved _

theorem shows_cleared {orderId : String} (fresh : orderId ∉ state.cleared.stale) :
    state.cleared.Shows orderId ↔ state.Shows orderId := by
  have absent : state.cache.get? orderId = none := by
    rw [PyDict.get?_eq_none_iff]
    intro cached
    exact fresh (List.mem_append_left _ cached)
  rw [Shows, Shows, absent]
  exact Iff.rfl

theorem ShowsRead.cleared (shows : state.ShowsRead) : state.cleared.ShowsRead := by
  intro orderId fresh
  apply (shows_cleared fresh).mpr
  exact shows orderId fun stale => fresh (List.mem_append_right _ stale)

theorem Positioned.cleared (positioned : state.Positioned position) :
    state.cleared.Positioned position := by
  refine ⟨positioned.token, ?_, ?_⟩
  · intro missing
    exact (positioned.read missing).cleared
  · intro missing write member
    exact List.mem_append_right _ (positioned.stale missing write member)

theorem OnlyUpdated.kept {orderId : String} (valid : state.ValidHistory)
    (updated : state.OnlyUpdated position orderId) {later : Nat} (after : position ≤ later)
    (inside : later ≤ state.writes.length) :
    ((version state.initial state.writes later).get? orderId).isSome =
      ((version state.initial state.writes position).get? orderId).isSome := by
  induction later, after using Nat.le_induction with
  | base => rfl
  | succ later after ih =>
      have found : state.writes[later]? = some state.writes[later] :=
        List.getElem?_eq_getElem inside
      rw [version_succ _ found, ← ih (Nat.le_of_succ_le inside)]
      by_cases own : orderId = state.writes[later].orderId
      · have member : state.writes[later] ∈ state.writes.drop position := by
          rw [List.mem_drop_iff_getElem]
          exact ⟨later - position, by omega, by congr 1; omega⟩
        have update := updated _ member own.symm
        have there := valid later _ found
        rw [own, Write.get?_apply_self]
        cases write : state.writes[later] with
        | update _ _ =>
            rw [write] at there
            exact there.symm
        | insert _ _ | replace _ _ | delete _ =>
            rw [write] at update
            cases update
      · rw [Write.get?_apply_of_ne _ _ own]

theorem Recovers.cleared (valid : state.ValidHistory)
    (recovers : state.Recovers position applied)
    (superseded : ∀ orderId,
      ((version state.initial state.writes position).get? orderId).isSome = true →
        ¬state.OnlyUpdated position orderId) :
    state.cleared.Recovers position applied := by
  have gone {orderId : String} (updated : state.OnlyUpdated position orderId) {later : Nat}
      (after : position ≤ later) (inside : later ≤ state.writes.length) :
      ((version state.initial state.writes later).get? orderId).isSome = false := by
    rw [updated.kept valid after inside, Bool.eq_false_iff]
    intro present
    exact superseded orderId present updated
  have reached : position ≤ applied := by
    rcases recovers.resumed with rfl | rfl
    · exact Nat.le_refl _
    · exact Nat.le_succ _
  refine ⟨recovers.resumed, recovers.inside, ?_, ?_⟩
  · intro orderId untouched
    have absent : state.orders.get? orderId = none := by
      rw [← Option.not_isSome_iff_eq_none, Bool.not_eq_true]
      exact gone (Untouched.onlyUpdated untouched) recovers.reaches (Nat.le_refl _)
    change Option.Rel _ none (state.orders.get? orderId)
    rw [absent]
    exact .none
  · intro orderId updated
    exact (gone updated reached recovers.inside).symm

theorem RecoversIn.cleared (valid : state.ValidHistory) (sound : state.RecoversIn state.phase)
    (superseded : state.Superseded) : state.cleared.RecoversIn state.phase := by
  unfold Superseded resumesAt at superseded
  cases phase : state.phase with
  | scanning reconciling =>
      intro orderId _
      exact Or.inl rfl
  | stopped => trivial
  | down =>
      rw [phase] at sound superseded
      constructor
      · intro position saved
        obtain ⟨applied, recovers⟩ := sound.1 position saved
        exact ⟨applied, recovers.cleared valid (superseded position saved)⟩
      · intro missing
        exact (sound.2 missing).cleared
  | streaming position =>
      rw [phase] at sound superseded
      obtain ⟨positioned, applied, recovers⟩ := sound
      exact ⟨positioned.cleared, applied, recovers.cleared valid (superseded position rfl)⟩
  | appending position args =>
      rw [phase] at sound superseded
      obtain ⟨positioned, ⟨applied, recovers⟩, write, prepares⟩ := sound
      exact ⟨positioned.cleared, ⟨applied, recovers.cleared valid (superseded position rfl)⟩,
        write, prepares.found, prepares.named, prepares.present, prepares.settled⟩
  | adding position =>
      rw [phase] at sound superseded
      obtain ⟨positioned, recovers⟩ := sound
      exact ⟨positioned.cleared, recovers.cleared valid (superseded (position + 1) rfl)⟩

theorem RecoversIn.reaches (sound : state.RecoversIn state.phase) {position : Nat}
    (resumes : state.resumesAt = some position) : position ≤ state.writes.length := by
  unfold resumesAt at resumes
  cases phase : state.phase with
  | scanning _ | stopped =>
      rw [phase] at resumes
      cases resumes
  | down =>
      rw [phase] at sound resumes
      obtain ⟨applied, recovers⟩ := sound.1 position resumes
      exact recovers.reaches
  | streaming _ =>
      rw [phase] at sound resumes
      cases resumes
      obtain ⟨-, applied, recovers⟩ := sound
      exact recovers.reaches
  | appending _ _ =>
      rw [phase] at sound resumes
      cases resumes
      obtain ⟨-, ⟨applied, recovers⟩, -⟩ := sound
      exact recovers.reaches
  | adding _ =>
      rw [phase] at sound resumes
      cases resumes
      exact sound.2.reaches

/-- Once the collection is empty, whatever was in it is still to be deleted. -/
theorem RecoversIn.superseded (sound : state.RecoversIn state.phase)
    (valid : state.ValidHistory) (empty : ∀ orderId, state.orders.get? orderId = none) :
    state.Superseded := by
  intro position resumes orderId present updated
  have kept := updated.kept valid (sound.reaches resumes) (Nat.le_refl _)
  have absent := empty orderId
  rw [orders] at absent
  rw [present, absent] at kept
  cases kept

theorem RecoversIn.current_of_drained (sound : state.RecoversIn state.phase)
    (drained : state.drained = true) : state.Current := by
  unfold Lifecycle.drained at drained
  split at drained
  · rename_i streaming
    rw [streaming] at sound
    obtain ⟨-, applied, recovers⟩ := sound
    intro orderId
    apply recovers.settled orderId
    intro write member
    rw [of_decide_eq_true drained, List.drop_length] at member
    cases member
  · cases drained

end

end Lifecycle

namespace CacheReset

/-- The stream is opened as the cache needs it, and the cache is not cleared of an order
that stays. -/
def Orderly (state : CacheReset) : CacheResetAction → Prop
  | .watcher action => state.watcher.OpensFresh action
  | .clearCache => state.reset = .deleted → state.watcher.Superseded
  | .start | .deleteOne _ | .deleteEnd | .fail => True

/-- Nobody else writes while a reset is under way. -/
def Undisturbed (state : CacheReset) : CacheResetAction → Prop
  | .watcher action =>
      state.watcher.OpensFresh action ∧ (state.reset = .idle ∨ ∀ write, action ≠ .write write)
  | .start | .deleteOne _ | .deleteEnd | .clearCache | .fail => True

structure Sound (state : CacheReset) : Prop where
  valid : state.watcher.ValidHistory
  recovers : state.watcher.RecoversIn state.watcher.phase

def Emptied (state : CacheReset) : Prop :=
  match state.reset with
  | .idle => True
  | .deleting written => written = []
  | .deleted => ∀ orderId, state.watcher.orders.get? orderId = none

theorem sound_init (initial : Orders) : Sound { watcher := { initial } } where
  valid := by
    intro position write found
    cases found
  recovers := by
    intro orderId _
    exact Or.inl rfl

variable {state next : CacheReset} {action : CacheResetAction}

theorem Sound.watch (sound : Sound state) {action : LifecycleAction} {watcher : Lifecycle}
    (opens : state.watcher.OpensFresh action)
    (stepped : Lifecycle.step state.watcher action = some watcher) (reset : CacheResetPhase) :
    Sound { watcher, reset } :=
  ⟨Lifecycle.validHistory_step sound.valid stepped,
    Lifecycle.recovers_step sound.valid sound.recovers opens stepped⟩

theorem Sound.step (sound : Sound state) (orderly : state.Orderly action)
    (stepped : step state action = some next) : Sound next := by
  cases step_cases stepped with
  | watched moved => exact sound.watch orderly moved _
  | deletedOne _ moved =>
      apply sound.watch _ moved
      intro opens
      cases opens
  | cleared deleted =>
      exact ⟨sound.valid, (sound.recovers.cleared sound.valid (orderly deleted)).moved _⟩
  | started | deleted _ _ | failed => exact ⟨sound.valid, sound.recovers⟩

theorem Emptied.orderly (emptied : Emptied state) (sound : Sound state)
    (undisturbed : state.Undisturbed action) : state.Orderly action := by
  cases action with
  | watcher action => exact undisturbed.1
  | clearCache =>
      intro deleted
      rw [Emptied, deleted] at emptied
      exact sound.recovers.superseded sound.valid emptied
  | start | deleteOne _ | deleteEnd | fail => trivial

theorem noted_of_ne (phase : CacheResetPhase) {action : LifecycleAction}
    (other : ∀ write, action ≠ .write write) : phase.noted action = phase := by
  cases action with
  | write write => exact absurd rfl (other write)
  | _ => rfl

theorem noted_idle (action : LifecycleAction) : CacheResetPhase.idle.noted action = .idle := by
  cases action <;> rfl

theorem Emptied.step (emptied : Emptied state) (undisturbed : state.Undisturbed action)
    (stepped : step state action = some next) : Emptied next := by
  cases step_cases stepped with
  | watched moved =>
      rcases undisturbed.2 with idle | other
      · rw [Emptied, idle, noted_idle]
        trivial
      · rw [Emptied, noted_of_ne state.reset other, Lifecycle.orders_of_step other moved]
        exact emptied
  | started => rfl
  | deletedOne deleting _ =>
      rw [Emptied, deleting] at emptied
      rw [Emptied, deleting]
      exact emptied
  | deleted deleting all =>
      rw [Emptied, deleting] at emptied
      intro orderId
      rw [PyDict.get?_eq_none_iff]
      intro present
      have written := all orderId present
      rw [emptied] at written
      cases written
  | cleared _ | failed => trivial

theorem sound_of_undisturbed {initial : Orders} {actions : List CacheResetAction}
    (along : Along step (fun _ => Undisturbed) { watcher := { initial } } actions)
    (reached : exec step { watcher := { initial } } actions = some state) :
    Sound state ∧ Emptied state := by
  refine exec_induction_along (motive := fun _ state => Sound state ∧ Emptied state)
    ⟨sound_init initial, trivial⟩ ?_ along reached
  intro _ middle action finish _ holds undisturbed stepped
  exact ⟨holds.1.step (holds.2.orderly holds.1 undisturbed) stepped,
    holds.2.step undisturbed stepped⟩

/-- A reset that nobody else writes beside clears the cache of nothing that stays. -/
theorem orderly_of_undisturbed {initial : Orders} {actions : List CacheResetAction}
    (along : Along step (fun _ => Undisturbed) { watcher := { initial } } actions) :
    Along step (fun _ => Orderly) { watcher := { initial } } actions := by
  intro before action after split state reached
  have earlier : Along step (fun _ => Undisturbed) { watcher := { initial } } before := by
    rw [split] at along
    exact along_append_left along
  obtain ⟨sound, emptied⟩ := sound_of_undisturbed earlier reached
  exact emptied.orderly sound (along before action after split state reached)

/-- Through any number of resets, errors and reconciliations, the cache is up to date whenever
the stream has delivered everything, if the cache is never cleared of an order that stays as
the processed changes left it, up to updates; and it is not where nobody else writes beside a
reset. -/
theorem cache_recovers_from_reset (initial : Orders) {actions : List CacheResetAction}
    (reached : exec step { watcher := { initial } } actions = some state)
    (drained : state.watcher.drained = true) :
    (Along step (fun _ => Orderly) { watcher := { initial } } actions →
      state.watcher.Current) ∧
    (Along step (fun _ => Undisturbed) { watcher := { initial } } actions →
      Along step (fun _ => Orderly) { watcher := { initial } } actions) := by
  constructor
  · intro along
    have sound : Sound state := by
      refine exec_induction_along (motive := fun _ => Sound) (sound_init initial) ?_ along
        reached
      intro _ middle action finish _ holds orderly stepped
      exact holds.step orderly stepped
    exact sound.recovers.current_of_drained drained
  · exact orderly_of_undisturbed

/-! Of two orders the watcher has processed one when both are deleted.  A third one comes
after the reset, or before its end. -/

def sampleDelivery (seen : Nat) : List CacheResetAction :=
  [.watcher (.deliver seen none none "correlation"), .watcher .appended, .watcher .added]

def deletedOrders : List CacheResetAction :=
  [.watcher .scanEnd, .watcher .openStream, .watcher (Lifecycle.sampleInsert "1"),
    .watcher (Lifecycle.sampleInsert "2")] ++ sampleDelivery 1 ++
      [.start, .deleteOne "1", .deleteOne "2", .deleteEnd]

def deliveredRest : List CacheResetAction :=
  sampleDelivery 2 ++ sampleDelivery 3 ++ sampleDelivery 4

def insertedAfterwards : List CacheResetAction :=
  deletedOrders ++ [.clearCache] ++ deliveredRest ++
    [.watcher (Lifecycle.sampleInsert "3")] ++ sampleDelivery 5

def insertedBefore : List CacheResetAction :=
  deletedOrders ++ deliveredRest ++ [.watcher (Lifecycle.sampleInsert "3")] ++
    sampleDelivery 5 ++ [.clearCache]

def calm (state : CacheReset) : CacheResetAction → Bool
  | .watcher .openStream => state.watcher.stale.isEmpty
  | .watcher (.write _) =>
      match state.reset with
      | .idle => true
      | .deleting _ | .deleted => false
  | _ => true

theorem undisturbed_of_calm (calm : state.calm action = true) : state.Undisturbed action := by
  cases action with
  | watcher action =>
      cases action with
      | openStream =>
          refine ⟨?_, Or.inr ?_⟩
          · intro _ _ _ orderId stale
            rw [CacheReset.calm, List.isEmpty_iff] at calm
            rw [calm] at stale
            cases stale
          · intro write same
            cases same
      | write write =>
          refine ⟨?_, Or.inl ?_⟩
          · intro opens
            cases opens
          · rw [CacheReset.calm] at calm
            split at calm
            · assumption
            all_goals cases calm
      | _ =>
          refine ⟨?_, Or.inr ?_⟩
          · intro opens
            cases opens
          · intro write same
            cases same
  | _ => trivial

theorem cache_recovers_from_reset_of_inserted :
    ∃ state, exec step { watcher := { initial := ∅ } } insertedAfterwards = some state ∧
      state.watcher.cache.keys = ["3"] ∧ state.watcher.Current := by
  have facts : (exec step { watcher := { initial := ∅ } } insertedAfterwards).map
      (fun state => (state.watcher.drained, state.watcher.cache.keys)) = some (true, ["3"]) := by
    decide +kernel
  have calm : Along step (fun _ state action => state.calm action = true)
      { watcher := { initial := ∅ } } insertedAfterwards := by
    decide +kernel
  obtain ⟨state, reached, shown⟩ := Option.map_eq_some_iff.mp facts
  obtain ⟨drained, keys⟩ := Prod.mk.inj shown
  refine ⟨state, reached, keys, ?_⟩
  obtain ⟨recovers, orderly⟩ := cache_recovers_from_reset ∅ reached drained
  refine recovers (orderly ?_)
  intro before action after split middle arrived
  exact undisturbed_of_calm (calm before action after split middle arrived)

/-- What was inserted and processed before the end of the reset is forgotten. -/
example :
    (exec step { watcher := { initial := ∅ } } insertedBefore).map (fun state =>
      (state.watcher.drained, state.watcher.orders.keys, state.watcher.cache.keys)) =
        some (true, ["3"], []) := by
  decide +kernel

end CacheReset

end OrderStream
