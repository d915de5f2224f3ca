import OrderStream.Buffer.Cohesion
import OrderStream.Delivery.Isolation

/-! The handlers of `/stream` and `/ws` beside the broker they are registered with. -/

namespace OrderStream

open Transition

inductive Transport where
  | sse
  | ws

/-- A handler is registered before its loop starts. -/
inductive HandlerPhase where
  | opening
  | serving
  | ended

structure Handler where
  transport : Transport
  phase : HandlerPhase

structure Connections where
  broker : Broker
  handlers : List Handler := []

/-- `abandon` is a connection lost before the loop starts. -/
inductive ConnectionAction where
  | connect (transport : Transport) (subscription : Subscription)
  | start (id : Nat)
  | abandon (id : Nat)
  | heartbeat (id : Nat) (t : Rat)
  | read (id : Nat)
  | disconnect (id : Nat)
  | broadcast (event : Event)
  | broadcastSystem (payload : Doc)
  | engage
  | release

namespace Connections

def turn (connections : Connections) (id : Nat) (phase : HandlerPhase) : Connections :=
  { connections with
    handlers := connections.handlers.modify id fun handler => { handler with phase } }

def onBroker (connections : Connections) (action : BrokerAction) : Option Connections :=
  (Broker.step connections.broker action).map fun broker => { connections with broker }

def step (connections : Connections) : ConnectionAction → Option Connections
  | .connect transport subscription =>
      (connections.onBroker (.subscribe subscription)).map fun connections =>
        { connections with handlers := connections.handlers ++ [⟨transport, .opening⟩] }
  | .start id =>
      match connections.handlers[id]? with
      | some ⟨_, .opening⟩ => some (connections.turn id .serving)
      | _ => none
  | .abandon id =>
      match connections.handlers[id]? with
      | some ⟨_, .opening⟩ => some (connections.turn id .ended)
      | _ => none
  | .heartbeat id t =>
      match connections.handlers[id]? with
      | some ⟨.sse, .serving⟩ => connections.onBroker (.heartbeat id t)
      -- the WebSocket heartbeat goes past the queue
      | some ⟨.ws, .serving⟩ => some connections
      | _ => none
  | .read id =>
      match connections.handlers[id]? with
      | some ⟨_, .serving⟩ => connections.onBroker (.read id)
      | _ => none
  | .disconnect id =>
      match connections.handlers[id]? with
      | some ⟨_, .serving⟩ =>
          (connections.onBroker (.unsubscribe id)).map fun connections => connections.turn id .ended
      | _ => none
  | .broadcast event => connections.onBroker (.broadcast event)
  | .broadcastSystem payload => connections.onBroker (.broadcastSystem payload)
  | .engage => connections.onBroker .engage
  | .release => connections.onBroker .release

def Serving (connections : Connections) (id : Nat) : Prop :=
  ∃ transport, connections.handlers[id]? = some ⟨transport, .serving⟩

def Visible (connections : Connections) : Prop :=
  ∀ id, connections.Serving id → id ∈ connections.broker.registered

end Connections

/-- The broadcast finds the queue of the client full for the fifth time. -/
def Broker.Evicts (broker : Broker) (event : Event) (id : Nat) : Prop :=
  broker.engaged = false ∧ id ∈ broker.registered ∧
    ∃ client, broker.clients[id]? = some client ∧
      client.subscription.matches event = true ∧ client.full broker.maxQueue = true ∧
      client.dropped + 1 ≥ 5

/-- No client is evicted while it is served, nor served after it was evicted. -/
def Connections.KeepsVisible (connections : Connections) : ConnectionAction → Prop
  | .broadcast event => ∀ id, connections.Serving id → ¬connections.broker.Evicts event id
  | .start id => (∃ transport, connections.handlers[id]? = some ⟨transport, .opening⟩) →
      id ∈ connections.broker.registered
  | _ => True

def BrokerAction.quiet : BrokerAction → Bool
  | .subscribe _ | .unsubscribe _ | .broadcast _ => false
  | .broadcastSystem _ | .heartbeat _ _ | .read _ | .engage | .release => true

namespace Broker

variable {broker next : Broker} {id : Nat}

theorem registered_broadcast (numbered : broker.Numbered) (event : Event)
    (registered : id ∈ broker.registered) :
    id ∈ (broker.broadcast event).registered ↔ ¬broker.Evicts event id := by
  have known := numbered.known id registered
  have present := List.getElem?_eq_getElem known
  have before := seat_of_known known
  have after := seat_broadcast numbered event id
  rw [before, decide_eq_true registered, Option.map_some] at after
  rw [mem_registered after]
  simp only [Seat.after, Evicts, registered, present, Option.some.injEq, exists_eq_left',
    true_and, if_true]
  cases broker.engaged with
  | true => simp
  | false =>
      cases matched : broker.clients[id].subscription.matches event with
      | false => simp [Seat.offer, matched]
      | true =>
          cases full : broker.clients[id].full broker.maxQueue with
          | false => simp [Seat.offer, Seat.update, matched, full]
          | true =>
              by_cases fifth : broker.clients[id].dropped + 1 ≥ 5
              · simp [Seat.offer, Seat.leave, matched, full, fifth]
              · simp [Seat.offer, Seat.update, matched, full, fifth]

theorem registered_broadcastSystem (broker : Broker) (payload : Doc) :
    (broker.broadcastSystem payload).registered = broker.registered := by
  have kept (ids : List Nat) (middle : Broker) :
      (ids.foldl (fun broker id =>
        broker.update id (Client.tryPut broker.maxQueue (.system payload))) middle).registered =
          middle.registered := by
    induction ids generalizing middle with
    | nil => rfl
    | cons id rest ih => exact ih _
  exact kept broker.registered broker

theorem registered_step {action : BrokerAction} (stepped : step broker action = some next)
    (quiet : action.quiet = true) : next.registered = broker.registered := by
  cases step_cases stepped with
  | subscribed | unsubscribed | broadcast => cases quiet
  | broadcastSystem => exact registered_broadcastSystem broker _
  | heartbeat | read _ _ | engaged | released => rfl

theorem length_step {action : BrokerAction} (stepped : step broker action = some next)
    (quiet : action.quiet = true) : next.clients.length = broker.clients.length := by
  refine length_step_of_old stepped ?_
  cases action with
  | subscribe _ => cases quiet
  | _ => rfl

end Broker

namespace Connections

variable {connections next : Connections} {id : Nat}

structure Paired (connections : Connections) : Prop where
  numbered : connections.broker.Numbered
  handlers : connections.handlers.length = connections.broker.clients.length

inductive Step (connections : Connections) : ConnectionAction → Connections → Prop where
  | connected {transport : Transport} {subscription : Subscription} {broker : Broker} :
      Broker.step connections.broker (.subscribe subscription) = some broker →
        Step connections (.connect transport subscription)
          { broker, handlers := connections.handlers ++ [⟨transport, .opening⟩] }
  | started {id : Nat} {transport : Transport} :
      connections.handlers[id]? = some ⟨transport, .opening⟩ →
        Step connections (.start id) (connections.turn id .serving)
  | abandoned {id : Nat} {transport : Transport} :
      connections.handlers[id]? = some ⟨transport, .opening⟩ →
        Step connections (.abandon id) (connections.turn id .ended)
  | disconnected {id : Nat} : connections.Serving id →
      Step connections (.disconnect id)
        ({ connections with broker := connections.broker.unsubscribe id }.turn id .ended)
  | broadcast {event : Event} :
      Step connections (.broadcast event)
        { connections with broker := connections.broker.broadcast event }
  | beat {id : Nat} {t : Rat} : Step connections (.heartbeat id t) connections
  | quiet {action : ConnectionAction} {brokerAction : BrokerAction} {broker : Broker} :
      connections.KeepsVisible action → brokerAction.quiet = true →
        Broker.step connections.broker brokerAction = some broker →
          Step connections action { connections with broker }

theorem onBroker_eq_some {action : BrokerAction} (moved : connections.onBroker action = some next) :
    ∃ broker, Broker.step connections.broker action = some broker ∧
      next = { connections with broker } := by
  obtain ⟨broker, stepped, equal⟩ := Option.map_eq_some_iff.mp moved
  exact ⟨broker, stepped, equal.symm⟩

theorem step_quiet {action : ConnectionAction} {brokerAction : BrokerAction}
    (keeps : connections.KeepsVisible action) (quiet : brokerAction.quiet = true)
    (moved : connections.onBroker brokerAction = some next) : Step connections action next := by
  obtain ⟨broker, stepped, rfl⟩ := onBroker_eq_some moved
  exact .quiet keeps quiet stepped

theorem step_cases {action : ConnectionAction} (stepped : step connections action = some next) :
    Step connections action next := by
  cases action with
  | connect transport subscription =>
      cases stepped
      exact .connected rfl
  | start id =>
      simp only [step] at stepped
      split at stepped
      · cases stepped
        exact .started ‹_›
      · cases stepped
  | abandon id =>
      simp only [step] at stepped
      split at stepped
      · cases stepped
        exact .abandoned ‹_›
      · cases stepped
  | heartbeat id t =>
      simp only [step] at stepped
      split at stepped
      · exact step_quiet trivial rfl stepped
      · cases stepped
        exact .beat
      · cases stepped
  | read id =>
      simp only [step] at stepped
      split at stepped
      · exact step_quiet trivial rfl stepped
      · cases stepped
  | disconnect id =>
      simp only [step] at stepped
      split at stepped
      · obtain ⟨middle, moved, rfl⟩ := Option.map_eq_some_iff.mp stepped
        cases moved
        exact .disconnected ⟨_, ‹_›⟩
      · cases stepped
  | broadcast event =>
      cases stepped
      exact .broadcast
  | broadcastSystem payload => exact step_quiet trivial rfl stepped
  | engage => exact step_quiet trivial rfl stepped
  | release => exact step_quiet trivial rfl stepped

theorem serving_turn (connections : Connections) (id other : Nat) (phase : HandlerPhase) :
    (connections.turn other phase).Serving id ↔
      if other = id then phase = .serving ∧ id < connections.handlers.length
      else connections.Serving id := by
  unfold Serving turn
  dsimp only
  rw [List.getElem?_modify]
  split
  · cases found : connections.handlers[id]? with
    | none =>
        have outside := List.getElem?_eq_none_iff.mp found
        simp [outside]
    | some handler =>
        have inside := (List.getElem?_eq_some_iff.mp found).1
        simp [inside]
  · simp

theorem paired_step {action : ConnectionAction} (paired : connections.Paired)
    (stepped : step connections action = some next) : next.Paired := by
  obtain ⟨numbered, handlers⟩ := paired
  cases step_cases stepped with
  | connected taken =>
      refine ⟨Broker.numbered_step numbered taken, ?_⟩
      cases taken
      rw [List.length_append, List.length_append, handlers]
      rfl
  | started _ | abandoned _ => exact ⟨numbered, (List.length_modify ..).trans handlers⟩
  | disconnected _ =>
      exact ⟨(Broker.narrows_unsubscribe connections.broker _).numbered numbered,
        (List.length_modify ..).trans handlers⟩
  | broadcast =>
      have narrows := Broker.narrows_broadcast connections.broker
      exact ⟨(narrows _).numbered numbered, handlers.trans (narrows _).clients.symm⟩
  | beat => exact ⟨numbered, handlers⟩
  | quiet _ quiet taken =>
      exact ⟨Broker.numbered_step numbered taken,
        handlers.trans (Broker.length_step taken quiet).symm⟩

/-- One step keeps everybody who is served registered iff it evicts none of them. -/
theorem visible_step {action : ConnectionAction} (paired : connections.Paired)
    (visible : connections.Visible) (stepped : step connections action = some next) :
    next.Visible ↔ connections.KeepsVisible action := by
  cases step_cases stepped with
  | @connected transport _ _ taken =>
      refine iff_of_true ?_ trivial
      rintro id ⟨other, found⟩
      cases taken
      have earlier : connections.Serving id := by
        rw [List.getElem?_append] at found
        split at found
        · exact ⟨other, found⟩
        · rw [List.getElem?_singleton] at found
          split at found
          · cases found
          · cases found
      exact List.mem_append_left _ (visible id earlier)
  | @started id transport opening =>
      have inside := (List.getElem?_eq_some_iff.mp opening).1
      constructor
      · intro onward _
        exact onward id ((serving_turn connections id id .serving).mpr (by simp [inside]))
      · intro known other serving
        rw [serving_turn] at serving
        split at serving
        · rename_i own
          subst own
          exact known ⟨transport, opening⟩
        · exact visible other serving
  | @abandoned id _ _ =>
      refine iff_of_true ?_ trivial
      intro other serving
      rw [serving_turn] at serving
      split at serving
      · cases serving.1
      · exact visible other serving
  | @disconnected id _ =>
      refine iff_of_true ?_ trivial
      intro other serving
      rw [serving_turn] at serving
      split at serving
      · cases serving.1
      · rename_i ne
        exact (List.mem_erase_of_ne (Ne.symm ne)).mpr (visible other serving)
  | broadcast =>
      apply forall_congr'
      intro id
      apply imp_congr_right
      intro serving
      exact Broker.registered_broadcast paired.numbered _ (visible id serving)
  | beat => exact iff_of_true visible trivial
  | quiet keeps quiet taken =>
      refine iff_of_true ?_ keeps
      intro id serving
      rw [Broker.registered_step taken quiet]
      exact visible id serving

theorem visible_init (maxQueue : Nat) : Visible { broker := { maxQueue } } := by
  rintro id ⟨transport, found⟩
  cases found

theorem paired_init (maxQueue : Nat) : Paired { broker := { maxQueue } } where
  numbered := Broker.numbered_empty maxQueue false
  handlers := rfl

/-- In every state of a run each client that is served is registered iff no step of the
run evicts a client that is served or starts to serve one that was evicted. -/
theorem visible_iff (maxQueue : Nat) {actions : List ConnectionAction} {connections : Connections}
    (reached : exec step { broker := { maxQueue } } actions = some connections) :
    (∀ before after state, actions = before ++ after →
        exec step { broker := { maxQueue } } before = some state → state.Visible) ↔
      Along step (fun _ => KeepsVisible) { broker := { maxQueue } } actions := by
  refine always_iff_along (fun connections => connections.Paired ∧ connections.Visible)
    ⟨paired_init maxQueue, visible_init maxQueue⟩ (visible_init maxQueue) ?_ reached
  rintro state action finish ⟨paired, visible⟩ stepped
  have keeps := visible_step paired visible stepped
  exact ⟨keeps, fun kept => ⟨paired_step paired stepped, keeps.mpr kept⟩⟩

theorem visible_of_reader :
    ∃ connections,
      exec step { broker := { maxQueue := 1 } }
          [.connect .sse {}, .start 0, .broadcast CohesionBuffer.validated, .read 0] =
            some connections ∧
        connections.Visible := by
  let actions : List ConnectionAction :=
    [.connect .sse {}, .start 0, .broadcast CohesionBuffer.validated, .read 0]
  obtain ⟨connections, reached⟩ :
      ∃ connections, exec step { broker := { maxQueue := 1 } } actions = some connections :=
    ⟨_, rfl⟩
  refine ⟨connections, reached,
    (visible_iff 1 reached).mpr ?_ actions [] connections rfl reached⟩
  rw [along_cons]
  refine ⟨trivial, ?_⟩
  intro connected first
  cases first
  rw [along_cons]
  refine ⟨fun _ => List.mem_singleton_self 0, ?_⟩
  intro started second
  cases second
  rw [along_cons]
  constructor
  · rintro id - ⟨-, -, client, found, -, -, fifth⟩
    have only : client = { subscription := {} } := by
      have member := List.mem_of_getElem? found
      exact List.mem_singleton.mp member
    rw [only] at fifth
    exact absurd fifth (by decide)
  · intro queued _
    rw [along_cons]
    exact ⟨trivial, fun _ _ => along_nil⟩

/-- The queue of a client overflows five times; then it is sent a heartbeat, and an event
passes it by. -/
def zombieRun : List ConnectionAction :=
  [.connect .sse {}, .start 0] ++
    List.replicate 6 (.broadcast CohesionBuffer.validated) ++
      [.read 0, .heartbeat 0 1, .broadcast CohesionBuffer.validated, .read 0]

theorem evicted_client_is_served :
    ∃ connections client,
      exec step { broker := { maxQueue := 1 } } zombieRun = some connections ∧
        connections.Serving 0 ∧ 0 ∉ connections.broker.registered ∧
        connections.broker.clients[0]? = some client ∧
        client.read = [.event CohesionBuffer.validated, .ping 1] ∧ client.queue = [] :=
  ⟨_, _, rfl, ⟨.sse, rfl⟩, List.not_mem_nil, rfl, rfl, rfl⟩

end Connections

end OrderStream
