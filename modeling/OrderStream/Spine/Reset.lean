import OrderStream.Spine.AppendErrors

/-! `POST /admin/reset` beside the appends of the watcher. -/

namespace OrderStream

open Transition

structure ResetResponse where
  ordersDeleted : Nat
  eventsDeleted : Nat
  headHash : String
  lastSeq : Int

inductive ResetPhase where
  | idle
  | ordersDeleted (orders : Nat)
  | eventsDeleted (orders events : Nat)
  | refreshed (orders events : Nat)

structure Server where
  log : EventLog
  spine : EventSpine
  orders : List Doc := []
  cache : PyDict String Doc := ∅
  reset : ResetPhase := .idle
  response : Option ResetResponse := none

inductive ServerAction where
  | deleteOrders
  | deleteEvents
  | clearCache
  | spine (action : SpineAction)

namespace Server

/-- `reset_demo` calls `_refresh_head` after the deletions, without the lock of
`append`.  Here `insert_one` fails with nothing but `DuplicateKeyError`. -/
def allows (reset : ResetPhase) : SpineAction → Bool
  | .refreshCall | .refreshRead | .refreshAssign =>
      match reset with
      | .eventsDeleted _ _ => true
      | _ => false
  | .fail _ => false
  | _ => true

def progress (reset : ResetPhase) (action : SpineAction) : ResetPhase :=
  match action, reset with
  | .refreshAssign, .eventsDeleted orders events => .refreshed orders events
  | _, reset => reset

def step (genesis : String) (state : Server) (action : ServerAction) : Option Server :=
  match action, state.reset with
  | .deleteOrders, .idle =>
      some { state with orders := [], reset := .ordersDeleted state.orders.length }
  | .deleteEvents, .ordersDeleted orders =>
      some { state with log := [], reset := .eventsDeleted orders state.log.length }
  | .clearCache, .refreshed ordersDeleted eventsDeleted =>
      some { state with
        cache := ∅
        reset := .idle
        response := some { ordersDeleted, eventsDeleted, headHash := state.spine.tail.hash,
                           lastSeq := state.spine.tail.seq } }
  | .spine action, reset =>
      if allows reset action then
        (EventSpine.step genesis (state.log, state.spine) action).map fun (log, spine) =>
          { state with log, spine, reset := progress reset action }
      else
        none
  | _, _ => none

/-- The steps of a reset keep clear of the appends. -/
def Apart (genesis : String) (state : Server) : ServerAction → Prop
  | .deleteEvents => state.log ≠ [] →
      ∀ draft attempt, state.spine.append ≠ .inserting draft attempt
  | .spine (.take _ _) => ∀ orders events, state.reset = .eventsDeleted orders events →
      events = 0
  | .spine .insert => ∀ found, state.spine.refresh ≠ .read found
  | .spine .refreshAssign =>
      match state.spine.append with
      | .inserting _ _ => False
      | .stored _ => state.log ≠ []
      | .refreshing _ _ found => state.log = [] → found = ⟨0, genesis⟩
      | _ => True
  | _ => True

def settled (state : Server) : Bool :=
  match state.reset, state.spine.append with
  | .idle, .idle => true
  | _, _ => false

theorem settled_iff {state : Server} :
    state.settled = true ↔ state.reset = .idle ∧ state.spine.append = .idle := by
  unfold settled
  cases state.reset <;> cases state.spine.append <;> simp

end Server

def AppendPhase.Follows (current tail : Tail) : AppendPhase → Prop
  | .idle | .ready _ _ => tail = current
  | .inserting draft _ =>
      draft.seq = current.seq + 1 ∧ draft.prevHash = current.hash ∧ tail.seq = draft.seq
  | .stored draft => current = ⟨draft.seq, draft.hash⟩ ∧ tail.seq = draft.seq
  | .conflict _ _ => True
  | .refreshing _ _ found => found = current

def RefreshPhase.Follows (current : Tail) : RefreshPhase → Prop
  | .idle | .reading => True
  | .read found => found = current

structure EventSpine.Follows (current : Tail) (spine : EventSpine) : Prop where
  append : spine.append.Follows current spine.tail
  refresh : spine.refresh.Follows current

structure EventSpine.Emptied (genesis : String) (spine : EventSpine) : Prop where
  append : ∀ draft attempt, spine.append ≠ .inserting draft attempt
  refresh : spine.refresh.Follows ⟨0, genesis⟩

namespace EventSpine

variable {genesis : String} {log next : EventLog} {spine after : EventSpine}
  {current : Tail} {action : SpineAction}

theorem follows_step (built : Built genesis log current) (follows : Follows current spine)
    (unread : action = .insert → ∀ found, spine.refresh ≠ .read found)
    (settled : action = .refreshAssign →
      ∀ draft attempt, spine.append ≠ .inserting draft attempt)
    (confirmed : ∀ stored, action ≠ .fail stored)
    (stepped : step genesis (log, spine) action = some (next, after)) :
    ∃ last, Built genesis next last ∧ Follows last after := by
  obtain ⟨appending, refreshing⟩ := follows
  cases step_cases stepped with
  | call phase | giveUp phase _ =>
      rw [phase] at appending
      exact ⟨current, built, appending, refreshing⟩
  | take phase _ =>
      rw [phase] at appending
      refine ⟨current, built, ⟨?_, ?_, rfl⟩, refreshing⟩
      · rw [← appending]
      · rw [← appending]
  | inserted phase stored =>
      rw [phase] at appending
      obtain ⟨seq, previous, bumped⟩ := appending
      refine ⟨_, (built.insert built.named seq previous stored).2, ⟨rfl, bumped⟩, ?_⟩
      cases reading : spine.refresh with
      | read found => exact absurd reading (unread rfl found)
      | _ => trivial
  | duplicate _ _ => exact ⟨current, built, trivial, refreshing⟩
  | lost _ | unconfirmed _ _ => exact absurd rfl (confirmed _)
  | finish phase =>
      rw [phase] at appending
      obtain ⟨rfl, bumped⟩ := appending
      refine ⟨_, built, ?_, refreshing⟩
      exact congrArg (Tail.mk · _) bumped
  | found _ located =>
      cases built.refreshHead_eq.symm.trans located
      exact ⟨current, built, rfl, refreshing⟩
  | unreadable _ failed | refreshUnreadable _ failed =>
      cases built.refreshHead_eq.symm.trans failed
  | assign phase =>
      rw [phase] at appending
      exact ⟨current, built, appending, refreshing⟩
  | refreshCall _ => exact ⟨current, built, appending, trivial⟩
  | refreshFound _ located =>
      cases built.refreshHead_eq.symm.trans located
      exact ⟨current, built, appending, rfl⟩
  | refreshAssign reading =>
      rw [reading] at refreshing
      refine ⟨current, built, ?_, trivial⟩
      cases phase : spine.append with
      | inserting draft attempt => exact absurd phase (settled rfl draft attempt)
      | stored draft =>
          rw [phase] at appending
          refine ⟨appending.1, ?_⟩
          rw [refreshing, appending.1]
      | conflict _ _ => trivial
      | refreshing _ _ _ =>
          rw [phase] at appending
          exact appending
      | _ => exact refreshing

theorem emptied_step (emptied : Emptied genesis spine)
    (untaken : ∀ eventId ts, action ≠ .take eventId ts) (unassigned : action ≠ .refreshAssign)
    (stepped : step genesis ([], spine) action = some (next, after)) :
    next = [] ∧ Emptied genesis after := by
  obtain ⟨appending, refreshing⟩ := emptied
  cases step_cases stepped with
  | call _ | giveUp _ _ | finish _ | found _ _ | unreadable _ _ | assign _ =>
      exact ⟨rfl, by simp, refreshing⟩
  | take _ _ => exact absurd rfl (untaken _ _)
  | inserted phase _ | duplicate phase _ | lost phase | unconfirmed phase _ =>
      exact absurd phase (appending _ _)
  | refreshCall _ => exact ⟨rfl, appending, trivial⟩
  | refreshFound _ located =>
      cases (@Built.nil genesis).refreshHead_eq.symm.trans located
      exact ⟨rfl, appending, rfl⟩
  | refreshUnreadable _ _ => exact ⟨rfl, appending, trivial⟩
  | refreshAssign _ => exact absurd rfl unassigned

theorem emptied_assign (emptied : Emptied genesis spine)
    (apart : match spine.append with
      | .stored _ => False
      | .refreshing _ _ found => found = ⟨0, genesis⟩
      | _ => True)
    (stepped : step genesis ([], spine) .refreshAssign = some (next, after)) :
    next = [] ∧ Follows ⟨0, genesis⟩ after := by
  obtain ⟨appending, refreshing⟩ := emptied
  cases step_cases stepped with
  | refreshAssign reading =>
      rw [reading] at refreshing
      refine ⟨rfl, ?_, trivial⟩
      cases phase : spine.append with
      | inserting draft attempt => exact absurd phase (appending draft attempt)
      | stored _ => simp [phase] at apart
      | conflict _ _ => trivial
      | refreshing _ _ _ =>
          rw [phase] at apart
          exact apart
      | _ => exact refreshing

end EventSpine

namespace Server

variable {genesis : String} {state next : Server} {action : ServerAction}

/-- Between the deletion of stored events and the assignment the tail may name a
deleted event; otherwise it follows the log. -/
inductive Tidy (genesis : String) (state : Server) : Prop where
  | synced {current : Tail} : Built genesis state.log current →
      EventSpine.Follows current state.spine →
        ((∀ orders events, state.reset ≠ .eventsDeleted orders events) →
          state.spine.refresh = .idle) → Tidy genesis state
  | emptied {orders events : Nat} : state.reset = .eventsDeleted orders events →
      events ≠ 0 → state.log = [] → EventSpine.Emptied genesis state.spine →
        Tidy genesis state

theorem spine_cases {action : SpineAction}
    (stepped : step genesis state (.spine action) = some next) :
    allows state.reset action = true ∧ ∃ log spine,
      EventSpine.step genesis (state.log, state.spine) action = some (log, spine) ∧
        next = { state with log, spine, reset := progress state.reset action } := by
  simp only [step] at stepped
  split at stepped
  · rename_i allowed
    obtain ⟨⟨log, spine⟩, taken, rfl⟩ := Option.map_eq_some_iff.mp stepped
    exact ⟨allowed, log, spine, taken, rfl⟩
  · cases stepped

theorem refresh_kept {log after : EventLog} {spine later : EventSpine}
    {action : SpineAction} (allowed : allows state.reset action = true)
    (idle : (∀ orders events, state.reset ≠ .eventsDeleted orders events) →
      spine.refresh = .idle)
    (taken : EventSpine.step genesis (log, spine) action = some (after, later))
    (ended : ∀ orders events,
      progress state.reset action ≠ .eventsDeleted orders events) :
    later.refresh = .idle := by
  cases EventSpine.step_cases taken with
  | refreshAssign _ => rfl
  | refreshUnreadable _ _ => rfl
  | refreshCall _ | refreshFound _ _ =>
      cases phase : state.reset with
      | eventsDeleted orders events => exact absurd (by rw [phase]; rfl) (ended orders events)
      | _ => simp [allows, phase] at allowed
  | _ => exact idle ended

theorem tidy_spine {action : SpineAction} (tidy : Tidy genesis state)
    (apart : Apart genesis state (.spine action))
    (stepped : step genesis state (.spine action) = some next) : Tidy genesis next := by
  obtain ⟨allowed, log, spine, taken, rfl⟩ := spine_cases stepped
  cases tidy with
  | synced built follows idle =>
      obtain ⟨last, rebuilt, follows⟩ := EventSpine.follows_step built follows
        (by
          rintro rfl
          exact apart)
        (by
          rintro rfl draft attempt phase
          simp [Apart, phase] at apart)
        (by
          rintro stored rfl
          cases allowed)
        taken
      exact .synced rebuilt follows (refresh_kept allowed idle taken)
  | @emptied orders events reset removed empty emptied =>
      rw [empty] at taken
      by_cases assigned : action = .refreshAssign
      · subst assigned
        obtain ⟨rfl, follows⟩ := EventSpine.emptied_assign emptied
          (by
            cases phase : state.spine.append with
            | stored _ => simp [Apart, phase, empty] at apart
            | refreshing _ _ _ => simpa [Apart, phase, empty] using apart
            | _ => trivial)
          taken
        refine .synced .nil follows ?_
        intro _
        cases EventSpine.step_cases taken with
        | refreshAssign _ => rfl
      · obtain ⟨rfl, emptied⟩ := EventSpine.emptied_step emptied
          (by
            rintro eventId ts rfl
            exact removed (apart orders events reset))
          assigned taken
        have kept : progress state.reset action = state.reset := by
          cases action with
          | refreshAssign => exact absurd rfl assigned
          | _ => rfl
        exact .emptied (kept.trans reset) removed rfl emptied

theorem tidy_step (tidy : Tidy genesis state) (apart : Apart genesis state action)
    (stepped : step genesis state action = some next) : Tidy genesis next := by
  cases action with
  | spine action => exact tidy_spine tidy apart stepped
  | deleteOrders =>
      cases phase : state.reset with
      | idle =>
          simp only [step, phase, Option.some.injEq] at stepped
          subst stepped
          cases tidy with
          | synced built follows idle => exact .synced built follows fun _ => idle (by simp [phase])
          | emptied reset _ _ _ => simp [phase] at reset
      | _ => simp [step, phase] at stepped
  | deleteEvents =>
      cases phase : state.reset with
      | ordersDeleted orders =>
          simp only [step, phase, Option.some.injEq] at stepped
          subst stepped
          cases tidy with
          | synced built follows idle =>
              by_cases empty : state.log = []
              · rw [empty] at built
                exact .synced built follows fun ended => absurd rfl (ended _ _)
              · refine .emptied rfl (by simpa using empty) rfl ⟨apart empty, ?_⟩
                rw [idle (by simp [phase])]
                trivial
          | emptied reset _ _ _ => simp [phase] at reset
      | _ => simp [step, phase] at stepped
  | clearCache =>
      cases phase : state.reset with
      | refreshed orders events =>
          simp only [step, phase, Option.some.injEq] at stepped
          subst stepped
          cases tidy with
          | synced built follows idle => exact .synced built follows fun _ => idle (by simp [phase])
          | emptied reset _ _ _ => simp [phase] at reset
      | _ => simp [step, phase] at stepped

end Server

/-- Once a reset that keeps clear of the appends has finished and no append is in
flight, the tail is that of the stored log, and the chain is whole. -/
theorem reset_keeps_chain {genesis : String} {log : EventLog} {tail : Tail}
    {orders : List Doc} {cache : PyDict String Doc} {actions : List ServerAction}
    {state : Server} (built : Built genesis log tail)
    (apart : Along (Server.step genesis) (fun _ => Server.Apart genesis)
      { log, spine := { tail }, orders, cache } actions)
    (reached : exec (Server.step genesis) { log, spine := { tail }, orders, cache } actions =
      some state)
    (finished : state.reset = .idle) (quiet : state.spine.append = .idle) :
    TrueTail genesis state.log state.spine.tail ∧
      ∃ report, verifyChain genesis state.log = .ok report ∧ report.intact = true := by
  have start : Server.Tidy genesis { log, spine := { tail }, orders, cache } :=
    .synced built ⟨rfl, trivial⟩ fun _ => rfl
  have tidy : Server.Tidy genesis state := by
    refine exec_induction_along (motive := fun _ => Server.Tidy genesis) start ?_ apart
      reached
    exact fun _ _ _ _ _ tidy apart stepped => Server.tidy_step tidy apart stepped
  cases tidy with
  | synced built follows _ =>
      have appending := follows.append
      rw [quiet] at appending
      refine ⟨?_, _, built.verifyChain_eq, rfl⟩
      rw [appending]
      exact built.trueTail
  | emptied reset _ _ _ => simp [finished] at reset

/-- A reset between two appends: the second one starts at seq 1 again. -/
theorem reset_keeps_chain_between_appends :
    ∃ state, exec (Server.step auditGenesisHash)
        { log := [], spine := EventSpine.init auditGenesisHash }
        [.spine (.call sampleArgs), .spine (.take "a" sampleTime), .spine .insert,
          .spine .finish, .deleteOrders, .deleteEvents, .spine .refreshCall,
          .spine .refreshRead, .spine .refreshAssign, .clearCache,
          .spine (.call sampleArgs), .spine (.take "b" sampleTime), .spine .insert,
          .spine .finish] = some state ∧
      state.spine.tail.seq = 1 ∧ TrueTail auditGenesisHash state.log state.spine.tail ∧
      ∃ report, verifyChain auditGenesisHash state.log = .ok report ∧
        report.intact = true := by
  have apart : Along (Server.step auditGenesisHash) (fun _ => Server.Apart auditGenesisHash)
      { log := [], spine := EventSpine.init auditGenesisHash }
      [.spine (.call sampleArgs), .spine (.take "a" sampleTime), .spine .insert,
        .spine .finish, .deleteOrders, .deleteEvents, .spine .refreshCall,
        .spine .refreshRead, .spine .refreshAssign, .clearCache,
        .spine (.call sampleArgs), .spine (.take "b" sampleTime), .spine .insert,
        .spine .finish] := by
    simp [along_cons, along_nil, Server.step, Server.allows, Server.progress,
      EventSpine.init, EventSpine.step, EventSpine.take, insertOne, Server.Apart,
      refreshHead, sortBySeq]
  have run : (exec (Server.step auditGenesisHash)
      { log := [], spine := EventSpine.init auditGenesisHash }
      [.spine (.call sampleArgs), .spine (.take "a" sampleTime), .spine .insert,
        .spine .finish, .deleteOrders, .deleteEvents, .spine .refreshCall,
        .spine .refreshRead, .spine .refreshAssign, .clearCache,
        .spine (.call sampleArgs), .spine (.take "b" sampleTime), .spine .insert,
        .spine .finish]).map
      (fun state => (state.spine.tail.seq, state.settled)) = some (1, true) := by
    decide +kernel
  obtain ⟨state, reached, settled⟩ := Option.map_eq_some_iff.mp run
  obtain ⟨seq, settled⟩ := Prod.mk.inj settled
  obtain ⟨finished, quiet⟩ := Server.settled_iff.mp settled
  exact ⟨state, reached, seq, reset_keeps_chain .nil apart reached finished quiet⟩

/-- A reset while an append has taken its tail and not yet inserted: the event with
seq 2 comes first in the emptied log, and the tail has seq 0. -/
theorem reset_during_append_loses_tail :
    ∃ state, exec (Server.step auditGenesisHash)
        { log := [], spine := EventSpine.init auditGenesisHash }
        [.spine (.call sampleArgs), .spine (.take "a" sampleTime), .spine .insert,
          .spine .finish, .spine (.call sampleArgs), .spine (.take "b" sampleTime),
          .deleteOrders, .deleteEvents, .spine .refreshCall, .spine .refreshRead,
          .spine .refreshAssign, .clearCache, .spine .insert, .spine .finish] =
        some state ∧
      state.reset = .idle ∧ state.spine.append = .idle ∧
      ¬TrueTail auditGenesisHash state.log state.spine.tail := by
  have run : (exec (Server.step auditGenesisHash)
      { log := [], spine := EventSpine.init auditGenesisHash }
      [.spine (.call sampleArgs), .spine (.take "a" sampleTime), .spine .insert,
        .spine .finish, .spine (.call sampleArgs), .spine (.take "b" sampleTime),
        .deleteOrders, .deleteEvents, .spine .refreshCall, .spine .refreshRead,
        .spine .refreshAssign, .clearCache, .spine .insert, .spine .finish]).map
      (fun state => (state.log.any fun doc => decide (seqOf doc = 2),
        state.spine.tail.seq, state.settled)) = some (true, 0, true) := by
    decide +kernel
  obtain ⟨state, reached, found⟩ := Option.map_eq_some_iff.mp run
  simp only [Prod.mk.injEq, List.any_eq_true] at found
  obtain ⟨⟨doc, member, seq⟩, tailSeq, settled⟩ := found
  obtain ⟨finished, quiet⟩ := Server.settled_iff.mp settled
  refine ⟨state, reached, finished, quiet, ?_⟩
  intro whole
  obtain ⟨bound, at_bound, below⟩ := whole.seq_le member
  rw [seqOf_of_get at_bound, decide_eq_true_eq] at seq
  omega

end OrderStream
