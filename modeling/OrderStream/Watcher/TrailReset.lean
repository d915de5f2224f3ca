import OrderStream.Watcher.Rebuild

/-! `POST /admin/reset` beside the events that the watcher writes: what they tell of the
documents from before it. -/

namespace OrderStream

open Transition

/-- Whether the cache has been cleared since the events were deleted.  It has not where a
reset raised in between, nor before the first reset. -/
inductive TrailResetPhase where
  | older
  | deleted
  | fresh
  deriving DecidableEq

/-- `written` of the trail are the events that the watcher stored since the events were last
deleted. -/
structure TrailReset where
  trail : AuditTrail
  phase : TrailResetPhase := .older

/-- The steps of the route's `_refresh_head` are among those of the trail. -/
inductive TrailResetAction where
  | watch (action : AuditAction)
  | deleteEvents
  | clearCache
  | fail

namespace TrailReset

open AuditTrail

def step (genesis : String) (state : TrailReset) : TrailResetAction → Option TrailReset
  | .watch action =>
      (AuditTrail.step genesis state.trail action).map fun trail => { state with trail }
  | .deleteEvents =>
      match state.phase with
      | .older | .fresh =>
          some { trail := { state.trail with log := [], written := [] }, phase := .deleted }
      | .deleted => none
  | .clearCache =>
      match state.phase with
      | .deleted => some { trail := { state.trail with cache := ∅ }, phase := .fresh }
      | .older | .fresh => none
  | .fail =>
      match state.phase with
      | .deleted => some { state with phase := .older }
      | .older | .fresh => none

/-- The watcher has stored nothing since the events were deleted, and is not about to. -/
def Quiet (state : TrailReset) : Prop :=
  state.trail.written = [] ∧ state.trail.spine.append = .idle

inductive Step (genesis : String) (state : TrailReset) :
    TrailResetAction → TrailReset → Prop where
  | watched {action : AuditAction} {trail : AuditTrail} :
      AuditTrail.step genesis state.trail action = some trail →
        Step genesis state (.watch action) { state with trail }
  | deleted :
      Step genesis state .deleteEvents
        { trail := { state.trail with log := [], written := [] }, phase := .deleted }
  | cleared :
      Step genesis state .clearCache
        { trail := { state.trail with cache := ∅ }, phase := .fresh }
  | failed : Step genesis state .fail { state with phase := .older }

theorem step_cases {genesis : String} {state next : TrailReset} {action : TrailResetAction}
    (stepped : step genesis state action = some next) : Step genesis state action next := by
  cases action with
  | watch action =>
      obtain ⟨trail, moved, rfl⟩ := Option.map_eq_some_iff.mp stepped
      exact .watched moved
  | deleteEvents =>
      simp only [step] at stepped
      split at stepped
      · cases stepped
        exact .deleted
      · cases stepped
        exact .deleted
      · cases stepped
  | clearCache =>
      simp only [step] at stepped
      split at stepped
      · cases stepped
        exact .cleared
      all_goals cases stepped
  | fail =>
      simp only [step] at stepped
      split at stepped
      · cases stepped
        exact .failed
      all_goals cases stepped

/-- The events of an order follow one another from nothing to what the cache has of it. -/
structure SelfContained (cache : Orders) (written : List Draft) : Prop where
  chained : ∀ orderId, (eventsOf orderId written).IsChain Follows
  remembers : Remembers cache written
  rebuilt : RebuiltBy cache written
  told : ∀ orderId, eventsOf orderId written = [] → cache.get? orderId = none
  first : ∀ orderId draft, (eventsOf orderId written).head? = some draft →
    draft.args.before = none

theorem selfContained_nil : SelfContained ∅ [] where
  chained _ := .nil
  remembers orderId draft found := by cases found
  rebuilt orderId newest found := by cases found
  told _ _ := rfl
  first orderId draft found := by cases found

theorem keeps_selfContained : Keeps SelfContained := by
  intro cache written draft contained found
  refine ⟨?_, ?_, ?_, ?_, ?_⟩
  · exact chained_snoc contained.chained contained.remembers found.before
  · exact remembers_snoc draft contained.remembers
  · exact keeps_rebuiltBy cache written draft contained.rebuilt found
  · intro orderId nothing
    by_cases own : orderId = draft.args.orderId
    · subst own
      rw [eventsOf_snoc_self] at nothing
      exact absurd nothing (List.append_ne_nil_of_right_ne_nil _ (List.cons_ne_nil _ _))
    · rw [eventsOf_snoc_of_ne written own] at nothing
      rw [Watcher.get?_remember_of_ne cache draft.args own]
      exact contained.told orderId nothing
  · intro orderId first head
    by_cases own : orderId = draft.args.orderId
    · subst own
      rw [eventsOf_snoc_self] at head
      cases earlier : eventsOf draft.args.orderId written with
      | nil =>
          rw [earlier] at head
          cases head
          by_cases insert : draft.args.op = .insert
          · exact found.diffed.anew insert
          · rw [found.before insert, contained.told _ earlier]
      | cons oldest rest =>
          rw [earlier] at head
          cases head
          apply contained.first draft.args.orderId
          rw [earlier]
          rfl
    · rw [eventsOf_snoc_of_ne written own] at head
      exact contained.first orderId first head

/-- Nothing is asked of the events until the cache has been cleared. -/
def Fresh (state : TrailReset) : Prop :=
  match state.phase with
  | .older | .deleted => True
  | .fresh =>
      PhaseKeeps SelfContained state.trail.cache state.trail.written state.trail.spine.append

variable {genesis : String} {state next : TrailReset}

theorem fresh_of_cleared (quiet : state.Quiet)
    (stepped : step genesis state .clearCache = some next) : next.Fresh := by
  cases step_cases stepped with
  | cleared =>
      obtain ⟨nothing, idle⟩ := quiet
      change PhaseKeeps SelfContained ∅ state.trail.written state.trail.spine.append
      rw [nothing, idle]
      exact selfContained_nil

theorem Fresh.step {action : TrailResetAction} (fresh : state.Fresh)
    (other : action ≠ .clearCache) (stepped : step genesis state action = some next) :
    next.Fresh := by
  cases step_cases stepped with
  | watched moved =>
      unfold Fresh at fresh ⊢
      cases phase : state.phase with
      | older | deleted => trivial
      | fresh =>
          rw [phase] at fresh
          exact keeps_selfContained.step fresh moved
  | deleted | failed => trivial
  | cleared => exact absurd rfl other

theorem Fresh.run {actions : List TrailResetAction} (fresh : state.Fresh)
    (last : .clearCache ∉ actions)
    (reached : exec (TrailReset.step genesis) state actions = some next) :
    next.Fresh := by
  induction actions generalizing state with
  | nil =>
      cases reached
      exact fresh
  | cons action actions ih =>
      obtain ⟨middle, stepped, onward⟩ := Option.bind_eq_some_iff.mp reached
      obtain ⟨other, rest⟩ := not_or.mp (List.mem_cons.not.mp last)
      exact ih (fresh.step (Ne.symm other) stepped) rest onward

/-- After a reset whose cache was cleared in quiet, the events of an order follow one another
from nothing, and replaying their diffs on nothing gives in each field that diffs list what
the newest of them left there, up to `==`: none of them tells of a document from before. -/
theorem reset_leaks_no_documents {start : TrailReset} (quiet : start.Quiet)
    {actions : List TrailResetAction} (last : .clearCache ∉ actions)
    (reached : exec (step genesis) start (.clearCache :: actions) = some state)
    (fresh : state.phase = .fresh) (orderId : String) :
    (eventsOf orderId state.trail.written).IsChain Follows ∧
      (∀ first, (eventsOf orderId state.trail.written).head? = some first →
        first.storageDoc.get "before" = .null) ∧
      ∀ newest, (eventsOf orderId state.trail.written).getLast? = some newest →
        ∀ field, isIgnored field = false →
          ∃ value, value.Same (Doc.getOr newest.args.after field) ∧
            ((eventsOf orderId state.trail.written).foldl replay ∅).get field =
              canonical value := by
  obtain ⟨cleared, stepped, onward⟩ := Option.bind_eq_some_iff.mp reached
  have kept : state.Fresh := (fresh_of_cleared quiet stepped).run last onward
  rw [Fresh, fresh] at kept
  obtain ⟨found, contained⟩ := kept.somewhere
  refine ⟨contained.chained orderId, ?_, ?_⟩
  · intro first head
    change optionalDoc (first.args.before.map canonicalDoc) = .null
    rw [contained.first orderId first head]
    rfl
  · intro newest last field compared
    have rebuilt := (contained.rebuilt orderId newest last).2 field compared
    suffices start : ((eventsOf orderId state.trail.written).head?.bind
        Draft.canonBefore).getD ∅ = (∅ : Doc) by
      rwa [AuditTrail.rebuilt, start] at rebuilt
    cases head : (eventsOf orderId state.trail.written).head? with
    | none => rfl
    | some first =>
        change (first.args.before.map canonicalDoc).getD ∅ = ∅
        rw [contained.first orderId first head]
        rfl

/-! An order is deleted by a reset, either in quiet or while its update is being stored. -/

def storedInsert : List TrailResetAction :=
  [.watch (.process ⟨.insert, "1", some (.ofList [("price", .int 10)]), none, none⟩ "first"),
    .watch (.append (.take "a" sampleTime)), .watch (.append .insert),
    .watch (.append .finish)]

def repricing : TrailResetAction :=
  .watch (.process ⟨.update, "1", some (.ofList [("price", .int 20)]), none, none⟩ "second")

def emptyLog : List TrailResetAction :=
  [.deleteEvents, .watch (.append .refreshCall), .watch (.append .refreshRead),
    .watch (.append .refreshAssign)]

def storedDeletion : List TrailResetAction :=
  [.watch (.process ⟨.delete, "1", none, none, none⟩ "third"),
    .watch (.append (.take "c" sampleTime)), .watch (.append .insert), .watch (.append .finish)]

def resetInBetween : List TrailResetAction :=
  storedInsert ++ [repricing] ++ emptyLog ++
    [.clearCache, .watch (.append (.take "b" sampleTime)), .watch (.append .insert)]

def resetTwice : List TrailResetAction :=
  resetInBetween ++ [.watch (.append .finish)] ++ emptyLog

def settled (state : TrailReset) : Bool :=
  match state.trail.written, state.trail.spine.append with
  | [], .idle => true
  | _, _ => false

theorem quiet_of_settled (settled : state.settled = true) : state.Quiet := by
  unfold TrailReset.settled at settled
  split at settled
  · exact ⟨‹_›, ‹_›⟩
  · cases settled

theorem reset_leaks_no_documents_of_quiet :
    ∃ start state, exec (step auditGenesisHash)
        { trail := { cache := ∅, log := [], spine := { tail := ⟨0, auditGenesisHash⟩ } } }
        resetTwice = some start ∧
      exec (step auditGenesisHash) start (.clearCache :: storedDeletion) = some state ∧
      (eventsOf "1" state.trail.written).length = 1 ∧
      ∀ first, (eventsOf "1" state.trail.written).head? = some first →
        first.storageDoc.get "before" = .null := by
  have facts : (exec (step auditGenesisHash)
      { trail := { cache := ∅, log := [], spine := { tail := ⟨0, auditGenesisHash⟩ } } }
      resetTwice).map (fun start => (start.settled,
        (exec (step auditGenesisHash) start (.clearCache :: storedDeletion)).map fun state =>
          ((eventsOf "1" state.trail.written).length, decide (state.phase = .fresh)))) =
      some (true, some (1, true)) := by
    decide +kernel
  obtain ⟨start, arrived, shape⟩ := Option.map_eq_some_iff.mp facts
  obtain ⟨settled, ran⟩ := Prod.mk.inj shape
  obtain ⟨state, reached, counts⟩ := Option.map_eq_some_iff.mp ran
  obtain ⟨count, fresh⟩ := Prod.mk.inj counts
  have last : TrailResetAction.clearCache ∉ storedDeletion := by simp [storedDeletion]
  exact ⟨start, state, arrived, reached, count,
    (reset_leaks_no_documents (quiet_of_settled settled) last reached
      (of_decide_eq_true fresh) "1").2.1⟩

/-- The update that was under way is stored with what the order was before the reset. -/
example :
    (exec (step auditGenesisHash)
      { trail := { cache := ∅, log := [], spine := { tail := ⟨0, auditGenesisHash⟩ } } }
      resetInBetween).map (fun state =>
        (eventsOf "1" state.trail.written).map fun draft => draft.args.before.isSome) =
          some [true] := by
  decide +kernel

end TrailReset

end OrderStream
