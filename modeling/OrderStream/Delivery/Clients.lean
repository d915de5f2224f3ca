import OrderStream.Delivery.Isolation
import OrderStream.Delivery.LiveView

/-! The pipeline with its broker: any number of clients with bounded queues, each of them
beside the one reader of the pipeline. -/

namespace OrderStream

open Transition
open Snapshot (applyEvent)

def PipelineAction.feeds : PipelineAction → Bool
  | .append _ _ _ | .fail _ _ _ _ | .add | .expire _ | .flushAll | .drain _ => true
  | .engage | .release | .subscribe | .receive | .disconnect => false

/-- `app.state`: the pipeline has no reader of its own here.  One field is not in the source:
`joined`, how many events had been appended when each client came. -/
structure AppState where
  pipeline : Pipeline
  broker : Broker
  joined : List Nat := []

inductive AppAction where
  | pipe (action : PipelineAction)
  | broker (action : BrokerAction)

namespace AppState

def onBroker (state : AppState) (action : BrokerAction) : Option AppState :=
  (Broker.step state.broker action).map fun broker =>
    { pipeline := { state.pipeline with engaged := broker.engaged }
      broker
      joined :=
        if action.joins then state.joined ++ [state.pipeline.appended.length]
        else state.joined }

def step (windows : Windows) (state : AppState) : AppAction → Option AppState
  | .pipe action =>
      if action.feeds then
        (Pipeline.step windows state.pipeline action).map fun pipeline =>
          { state with
            pipeline
            broker := (pipeline.buffer.emitted.drop state.pipeline.buffer.emitted.length).foldl
              (fun broker emission => broker.broadcast emission.event) state.broker }
      else none
  -- only the buffer calls `broadcast`
  | .broker (.broadcast _) => none
  | .broker action => state.onBroker action

inductive Step (windows : Windows) (state : AppState) : AppAction → AppState → Prop where
  | fed {action : PipelineAction} {pipeline : Pipeline} : action.feeds = true →
      Pipeline.step windows state.pipeline action = some pipeline →
        Step windows state (.pipe action)
          { state with
            pipeline
            broker := (pipeline.buffer.emitted.drop state.pipeline.buffer.emitted.length).foldl
              (fun broker emission => broker.broadcast emission.event) state.broker }
  | moved {action : BrokerAction} {broker : Broker} : (∀ event, action ≠ .broadcast event) →
      Broker.step state.broker action = some broker →
        Step windows state (.broker action)
          { pipeline := { state.pipeline with engaged := broker.engaged }
            broker
            joined :=
              if action.joins then state.joined ++ [state.pipeline.appended.length]
              else state.joined }

theorem step_cases {windows : Windows} {state next : AppState} {action : AppAction}
    (stepped : step windows state action = some next) : Step windows state action next := by
  cases action with
  | pipe action =>
      simp only [step] at stepped
      split at stepped
      · obtain ⟨pipeline, moved, rfl⟩ := Option.map_eq_some_iff.mp stepped
        exact .fed ‹_› moved
      · cases stepped
  | broker action =>
      cases action with
      | broadcast _ => cases stepped
      | _ =>
          change state.onBroker _ = some next at stepped
          obtain ⟨broker, moved, rfl⟩ := Option.map_eq_some_iff.mp stepped
          exact .moved (fun _ same => by cases same) moved

end AppState

theorem Reader.put_nil (reader : Reader) : reader.put [] = reader := by
  unfold put
  split
  · rw [List.append_nil]
  · rfl

namespace Pipeline

variable {windows : Windows} {pipeline next : Pipeline} {action : PipelineAction}

def newEmissions (pipeline next : Pipeline) : List Emission :=
  next.buffer.emitted.drop pipeline.buffer.emitted.length

theorem broadcast_with_reader (pipeline : Pipeline) (reader : Reader)
    (emissions : List Emission) :
    ({ pipeline with reader := some reader } : Pipeline).broadcast emissions =
      { pipeline.broadcast emissions with
        reader := some (if pipeline.engaged then reader else reader.put emissions) } := by
  unfold broadcast
  dsimp only
  split
  · rfl
  · rfl

theorem reader_broadcast (alone : pipeline.reader = none) (emissions : List Emission) :
    (pipeline.broadcast emissions).reader = none := by
  unfold broadcast
  split
  · exact alone
  · rw [alone]
    rfl

theorem engaged_broadcast (pipeline : Pipeline) (emissions : List Emission) :
    (pipeline.broadcast emissions).engaged = pipeline.engaged := by
  unfold broadcast
  split <;> rfl

theorem advance_with_reader {bufferAction : BufferAction}
    (advanced : pipeline.advance windows bufferAction = some next) (reader : Reader) :
    ({ pipeline with reader := some reader } : Pipeline).advance windows bufferAction =
      some { next with
        reader := some (if pipeline.engaged then reader
          else reader.put (pipeline.newEmissions next)) } := by
  obtain ⟨buffer, moved, rfl⟩ := advance_eq_some advanced
  have emissions : pipeline.newEmissions
      (({ pipeline with buffer } : Pipeline).broadcast
        (buffer.emitted.drop pipeline.buffer.emitted.length)) =
          buffer.emitted.drop pipeline.buffer.emitted.length := by
    rw [newEmissions, broadcast_buffer]
  rw [emissions, advance]
  dsimp only
  rw [moved, Option.map_some]
  exact congrArg some (broadcast_with_reader { pipeline with buffer } reader _)

theorem step_with_reader (feeds : action.feeds = true)
    (stepped : step windows pipeline action = some next) (reader : Reader) :
    step windows { pipeline with reader := some reader } action =
      some { next with
        reader := some (if pipeline.engaged then reader
          else reader.put (pipeline.newEmissions next)) } := by
  have quiet (silent : pipeline.newEmissions next = []) :
      (if pipeline.engaged then reader else reader.put (pipeline.newEmissions next)) =
        reader := by
    rw [silent, reader.put_nil]
    exact ite_id _
  cases action with
  | append args eventId ts =>
      simp only [step] at stepped
      split at stepped
      · rename_i idle inserted
        cases stepped
        rw [quiet List.drop_length]
        simp only [step]
        split
        · rename_i found
          cases inserted.symm.trans found
          rfl
        · rename_i other
          exact (other _ idle inserted).elim
      · cases stepped
  | fail args eventId ts stored =>
      cases stored with
      | false =>
          simp only [step] at stepped
          split at stepped
          · rename_i idle
            cases stepped
            rw [quiet List.drop_length]
            simp only [step, idle]
            rfl
          · cases stepped
      | true =>
          simp only [step] at stepped
          split at stepped
          · rename_i idle inserted
            cases stepped
            rw [quiet List.drop_length]
            simp only [step]
            split
            · rename_i found
              cases inserted.symm.trans found
              rfl
            · rename_i other
              exact (other _ idle inserted).elim
          · cases stepped
  | add =>
      simp only [step] at stepped
      split at stepped
      · rename_i event handed
        simp only [step, handed]
        exact advance_with_reader stepped reader
      · cases stepped
  | expire timer => exact advance_with_reader stepped reader
  | flushAll => exact advance_with_reader stepped reader
  | drain flush => exact advance_with_reader stepped reader
  | engage | release | subscribe | receive | disconnect => cases feeds

structure Feeds (pipeline next : Pipeline) : Prop where
  engaged : next.engaged = pipeline.engaged
  alone : pipeline.reader = none → next.reader = none
  emits : pipeline.newEmissions next = [] ∨
    ∃ emission, pipeline.newEmissions next = [emission]

theorem feeds_of_step (feeds : action.feeds = true)
    (stepped : step windows pipeline action = some next) : pipeline.Feeds next := by
  cases step_cases stepped with
  | appended _ _ | failed _ | unconfirmed _ _ =>
      exact ⟨rfl, id, Or.inl List.drop_length⟩
  | advanced _ moved =>
      refine ⟨engaged_broadcast _ _, ?_, ?_⟩
      · intro alone
        apply reader_broadcast
        exact alone
      rw [newEmissions, broadcast_buffer]
      rcases CohesionBuffer.emitted_step moved with quiet | ⟨emission, -, emitted⟩
      · rw [quiet]
        exact Or.inl List.drop_length
      · rw [emitted]
        exact Or.inr ⟨emission, List.drop_left⟩
  | engaged | released | subscribed _ | received _ _ | disconnected _ => cases feeds

end Pipeline

/-- It hears everything, and has missed nothing so far. -/
structure Seat.Whole (seat : Seat) : Prop where
  registered : seat.registered = true
  all : seat.client.subscription = {}
  kept : seat.client.dropped = 0

structure Reader.Mirrors (reader : Reader) (client : Client) : Prop where
  connected : reader.connected = true
  received : reader.received.map Emission.event = client.read.filterMap QueueItem.event?
  queue : reader.queue.map Emission.event = client.queue.filterMap QueueItem.event?

theorem Subscription.matches_all (event : Event) :
    ({} : Subscription).matches event = true := rfl

namespace Client

variable (maxQueue : Nat) (client : Client)

theorem subscription_tryPut (item : QueueItem) :
    (client.tryPut maxQueue item).subscription = client.subscription := by
  unfold tryPut
  split
  · rfl
  · rfl

theorem read_tryPut (item : QueueItem) : (client.tryPut maxQueue item).read = client.read := by
  unfold tryPut
  split
  · rfl
  · rfl

theorem queue_tryPut {item : QueueItem} (unheard : item.event? = none) :
    (client.tryPut maxQueue item).queue.filterMap QueueItem.event? =
      client.queue.filterMap QueueItem.event? := by
  unfold tryPut
  split
  · rfl
  · rw [put, List.filterMap_append, List.filterMap_cons_none unheard, List.filterMap_nil,
      List.append_nil]

end Client

namespace Reader.Mirrors

variable {reader : Reader} {client : Client}

theorem init (subscription : Subscription) (since : Nat) :
    ({ since } : Reader).Mirrors { subscription } := ⟨rfl, rfl, rfl⟩

theorem tryPut (mirrors : reader.Mirrors client) (maxQueue : Nat) {item : QueueItem}
    (unheard : item.event? = none) : reader.Mirrors (client.tryPut maxQueue item) where
  connected := mirrors.connected
  received := by
    rw [client.read_tryPut]
    exact mirrors.received
  queue := by
    rw [client.queue_tryPut maxQueue unheard]
    exact mirrors.queue

theorem put (mirrors : reader.Mirrors client) (emission : Emission) :
    (reader.put [emission]).Mirrors (client.put (.event emission.event)) := by
  rw [Reader.put, if_pos mirrors.connected]
  refine ⟨mirrors.connected, mirrors.received, ?_⟩
  rw [Client.put, List.filterMap_append, List.map_append, mirrors.queue]
  rfl

theorem take (mirrors : reader.Mirrors client) :
    reader.Mirrors client.take ∨ ∃ emission rest, reader.queue = emission :: rest ∧
      ({ reader with queue := rest, received := reader.received ++ [emission] } :
        Reader).Mirrors client.take := by
  obtain ⟨connected, received, queue⟩ := mirrors
  cases queued : client.queue with
  | nil =>
      left
      refine ⟨connected, ?_, ?_⟩
      · rw [Client.take, queued, List.head?_nil, Option.toList_none, List.append_nil]
        exact received
      · rw [queued] at queue
        rw [Client.take, queued]
        exact queue
  | cons item rest =>
      rw [queued] at queue
      cases item with
      | event event =>
          right
          change reader.queue.map Emission.event =
            event :: rest.filterMap QueueItem.event? at queue
          obtain ⟨emission, others, split, named, same⟩ := List.map_eq_cons_iff.mp queue
          refine ⟨emission, others, split, connected, ?_, ?_⟩
          · rw [Client.take, queued, List.map_append, received, List.filterMap_append,
              List.map_singleton, named]
            rfl
          · rw [Client.take, queued]
            exact same
      | system _ | ping _ =>
          left
          change reader.queue.map Emission.event = rest.filterMap QueueItem.event? at queue
          refine ⟨connected, ?_, ?_⟩
          · rw [Client.take, queued, List.filterMap_append]
            exact received.trans (List.append_nil _).symm
          · rw [Client.take, queued]
            exact queue

end Reader.Mirrors

namespace Seat

variable {maxQueue : Nat} {engaged : Bool} {seat : Seat} {own : BrokerAction}

theorem Whole.of_update {change : Client → Client}
    (subscription : (change seat.client).subscription = seat.client.subscription)
    (dropped : (change seat.client).dropped = seat.client.dropped)
    (whole : (seat.update change).Whole) : seat.Whole :=
  ⟨whole.registered, subscription.symm.trans whole.all, dropped.symm.trans whole.kept⟩

theorem Whole.of_tryPut {item : QueueItem}
    (whole : (seat.update (Client.tryPut maxQueue item)).Whole) : seat.Whole :=
  whole.of_update (seat.client.subscription_tryPut maxQueue item)
    (seat.client.dropped_tryPut maxQueue item)

theorem Whole.of_offer {event : Event} (whole : (seat.offer maxQueue event).Whole) :
    seat.offer maxQueue event = (seat.update fun client => client.put (.event event)) ∧
      seat.Whole := by
  have told : seat.client.subscription = {} → ¬(!seat.client.subscription.matches event) = true := by
    intro all
    rw [all, Subscription.matches_all]
    exact Bool.false_ne_true
  unfold Seat.offer at whole ⊢
  split at whole
  · exact absurd ‹_› (told whole.all)
  · rename_i matched
    rw [if_neg matched]
    dsimp only at whole ⊢
    split at whole
    · split at whole
      · exact absurd whole.kept (Nat.succ_ne_zero _)
      · exact absurd whole.kept (Nat.succ_ne_zero _)
    · rename_i space
      rw [if_neg space]
      exact ⟨rfl, whole.of_update rfl rfl⟩

theorem Whole.of_after (whole : (seat.after maxQueue engaged own).Whole) : seat.Whole := by
  cases own with
  | subscribe _ | engage | release => exact whole
  | unsubscribe _ => cases whole.registered
  | broadcast event =>
      rw [Seat.after] at whole
      split at whole
      · exact whole
      · split at whole
        · exact whole.of_offer.2
        · exact whole
  | broadcastSystem payload =>
      rw [Seat.after] at whole
      split at whole
      · exact whole.of_tryPut
      · exact whole
  | heartbeat _ t => exact whole.of_tryPut
  | read _ => exact whole.of_update rfl rfl

theorem Whole.broadcast {emission : Emission} {reader : Reader}
    (whole : (seat.after maxQueue engaged (.broadcast emission.event)).Whole)
    (mirrors : reader.Mirrors seat.client) :
    (if engaged then reader else reader.put [emission]).Mirrors
      (seat.after maxQueue engaged (.broadcast emission.event)).client := by
  have before := whole.of_after
  rw [Seat.after] at whole ⊢
  cases engaged with
  | true => exact mirrors
  | false =>
      rw [if_neg Bool.false_ne_true] at whole
      rw [if_neg Bool.false_ne_true, if_neg Bool.false_ne_true]
      rw [if_pos before.registered] at whole ⊢
      rw [whole.of_offer.1]
      exact mirrors.put emission

theorem Whole.quiet {reader : Reader} (quiet : ∀ event, own ≠ .broadcast event)
    (whole : (seat.after maxQueue engaged own).Whole) (mirrors : reader.Mirrors seat.client) :
    reader.Mirrors (seat.after maxQueue engaged own).client ∨
      ∃ emission rest, reader.queue = emission :: rest ∧
        ({ reader with queue := rest, received := reader.received ++ [emission] } :
          Reader).Mirrors (seat.after maxQueue engaged own).client := by
  cases own with
  | broadcast event => exact absurd rfl (quiet event)
  | subscribe _ | engage | release => exact Or.inl mirrors
  | unsubscribe _ => cases whole.registered
  | broadcastSystem payload =>
      left
      rw [Seat.after]
      split
      · exact mirrors.tryPut maxQueue rfl
      · exact mirrors
  | heartbeat _ t => exact Or.inl (mirrors.tryPut maxQueue rfl)
  | read _ => exact mirrors.take

end Seat

theorem BrokerAction.own_quiet {action own : BrokerAction} {id : Nat}
    (quiet : ∀ event, action ≠ .broadcast event) (found : action.own id = some own) :
    ∀ event, own ≠ .broadcast event := by
  rintro event rfl
  cases action with
  | broadcast other => exact quiet other rfl
  | subscribe _ | broadcastSystem _ | engage | release => cases found
  | unsubscribe _ | heartbeat _ _ | read _ =>
      simp only [BrokerAction.own] at found
      split at found <;> cases found

theorem Broker.seat_of_newcomer {broker next : Broker} {subscription : Subscription} {id : Nat}
    {seat : Seat} (stepped : Broker.step broker (.subscribe subscription) = some next)
    (fresh : ¬id < broker.clients.length) (found : next.seat id = some seat) :
    id = broker.clients.length ∧ seat.client = { subscription } := by
  have known := Broker.known_of_seat found
  obtain ⟨client, present, rfl⟩ := Option.map_eq_some_iff.mp found
  cases stepped
  rw [List.length_append, List.length_singleton] at known
  have last : id = broker.clients.length := by omega
  subst last
  rw [List.getElem?_concat_length] at present
  cases present
  exact ⟨rfl, rfl⟩

/-- Some run of a pipeline with one reader arrives there. -/
def Pipeline.Reaches (windows : Windows) (log : EventLog) (tail : Tail)
    (pipeline : Pipeline) : Prop :=
  ∃ taken, exec (Pipeline.step windows) { log, tail } taken = some pipeline

theorem Pipeline.Reaches.step {windows : Windows} {log : EventLog} {tail : Tail}
    {pipeline next : Pipeline} (reaches : Reaches windows log tail pipeline)
    (action : PipelineAction) (stepped : Pipeline.step windows pipeline action = some next) :
    Reaches windows log tail next := by
  obtain ⟨taken, reached⟩ := reaches
  exact ⟨taken ++ [action], exec_snoc.mpr ⟨pipeline, reached, stepped⟩⟩

namespace AppState

structure Simulated (windows : Windows) (log : EventLog) (tail : Tail) (state : AppState) :
    Prop where
  numbered : state.broker.Numbered
  engaged : state.pipeline.engaged = state.broker.engaged
  alone : state.pipeline.reader = none
  counted : state.joined.length = state.broker.clients.length
  reaches : Pipeline.Reaches windows log tail state.pipeline
  mirrored : ∀ id seat, state.broker.seat id = some seat → seat.Whole →
    ∃ reader : Reader,
      Pipeline.Reaches windows log tail { state.pipeline with reader := some reader } ∧
        reader.Mirrors seat.client ∧ state.joined[id]? = some reader.since

section

variable {windows : Windows} {log : EventLog} {tail : Tail} {state next : AppState}

theorem Simulated.feed (simulated : Simulated windows log tail state)
    {action : PipelineAction} {pipeline : Pipeline} (feeds : action.feeds = true)
    (stepped : Pipeline.step windows state.pipeline action = some pipeline) :
    Simulated windows log tail
      { state with
        pipeline
        broker := (state.pipeline.newEmissions pipeline).foldl
          (fun broker emission => broker.broadcast emission.event) state.broker } := by
  obtain ⟨engaged, alone, emits⟩ := Pipeline.feeds_of_step feeds stepped
  have onward {reader : Reader} (reached : Pipeline.Reaches windows log tail
      { state.pipeline with reader := some reader }) :=
    reached.step action (Pipeline.step_with_reader feeds stepped reader)
  rcases emits with quiet | ⟨emission, emitted⟩
  · rw [quiet]
    refine ⟨simulated.numbered, engaged.trans simulated.engaged, alone simulated.alone,
      simulated.counted, simulated.reaches.step action stepped, ?_⟩
    intro id seat found whole
    obtain ⟨reader, reached, mirrors, joined⟩ := simulated.mirrored id seat found whole
    have after := onward reached
    rw [quiet, reader.put_nil, ite_id] at after
    exact ⟨reader, after, mirrors, joined⟩
  · rw [emitted, List.foldl_cons, List.foldl_nil]
    have narrows := Broker.narrows_broadcast state.broker emission.event
    refine ⟨narrows.numbered simulated.numbered,
      (engaged.trans simulated.engaged).trans narrows.engaged.symm, alone simulated.alone,
      simulated.counted.trans narrows.clients.symm, simulated.reaches.step action stepped, ?_⟩
    intro id seat found whole
    rw [Broker.seat_broadcast simulated.numbered] at found
    obtain ⟨before, present, rfl⟩ := Option.map_eq_some_iff.mp found
    obtain ⟨reader, reached, mirrors, joined⟩ :=
      simulated.mirrored id before present whole.of_after
    have after := onward reached
    rw [emitted, simulated.engaged] at after
    refine ⟨_, after, whole.broadcast mirrors, ?_⟩
    rw [joined]
    unfold Reader.put
    split
    · rfl
    · split <;> rfl

theorem Simulated.switch (simulated : Simulated windows log tail state)
    {action : BrokerAction} {broker : Broker}
    (stepped : Broker.step state.broker action = some broker) {reader : Option Reader}
    (reached : Pipeline.Reaches windows log tail { state.pipeline with reader }) :
    Pipeline.Reaches windows log tail
      { state.pipeline with engaged := broker.engaged, reader } := by
  rw [Broker.engaged_step stepped, ← simulated.engaged]
  cases action with
  | engage => exact reached.step .engage rfl
  | release => exact reached.step .release rfl
  | _ => exact reached

theorem Simulated.kept (simulated : Simulated windows log tail state)
    {action : BrokerAction} {broker : Broker} (quiet : ∀ event, action ≠ .broadcast event)
    (stepped : Broker.step state.broker action = some broker) {id : Nat}
    (known : id < state.broker.clients.length) {seat : Seat}
    (found : broker.seat id = some seat) (whole : seat.Whole) :
    ∃ reader : Reader,
      Pipeline.Reaches windows log tail
          { state.pipeline with engaged := broker.engaged, reader := some reader } ∧
        reader.Mirrors seat.client ∧ state.joined[id]? = some reader.since := by
  rw [Broker.seat_step simulated.numbered known stepped] at found
  obtain ⟨before, present, same⟩ := Option.map_eq_some_iff.mp found
  cases own : action.own id with
  | none =>
      rw [own] at same
      cases same
      obtain ⟨reader, reached, mirrors, joined⟩ := simulated.mirrored id before present whole
      exact ⟨reader, simulated.switch stepped reached, mirrors, joined⟩
  | some action' =>
      rw [own] at same
      cases same
      obtain ⟨reader, reached, mirrors, joined⟩ :=
        simulated.mirrored id before present whole.of_after
      rcases whole.quiet (BrokerAction.own_quiet quiet own) mirrors with
        unmoved | ⟨emission, rest, queue, received⟩
      · exact ⟨reader, simulated.switch stepped reached, unmoved, joined⟩
      · have onward : Pipeline.Reaches windows log tail
            { state.pipeline with
              reader := some { reader with
                queue := rest
                received := reader.received ++ [emission] } } := by
          apply reached.step .receive
          simp only [Pipeline.step, queue]
        exact ⟨_, simulated.switch stepped onward, received, joined⟩

theorem Simulated.came (simulated : Simulated windows log tail state)
    (subscription : Subscription) :
    ∃ reader : Reader,
      Pipeline.Reaches windows log tail { state.pipeline with reader := some reader } ∧
        reader.Mirrors { subscription } ∧ reader.since = state.pipeline.appended.length := by
  refine ⟨{ since := state.pipeline.appended.length }, ?_, .init subscription _, rfl⟩
  apply simulated.reaches.step .subscribe
  simp only [Pipeline.step, simulated.alone]

theorem Simulated.move (simulated : Simulated windows log tail state)
    {action : BrokerAction} {broker : Broker} (quiet : ∀ event, action ≠ .broadcast event)
    (stepped : Broker.step state.broker action = some broker) :
    Simulated windows log tail
      { pipeline := { state.pipeline with engaged := broker.engaged }
        broker
        joined :=
          if action.joins then state.joined ++ [state.pipeline.appended.length]
          else state.joined } := by
  have numbered := Broker.numbered_step simulated.numbered stepped
  have reaches := simulated.switch stepped simulated.reaches
  cases joins : action.joins with
  | false =>
      have length := Broker.length_step_of_old stepped joins
      refine ⟨numbered, rfl, simulated.alone, simulated.counted.trans length.symm, reaches, ?_⟩
      intro id seat found whole
      have known := Broker.known_of_seat found
      rw [length] at known
      exact simulated.kept quiet stepped known found whole
  | true =>
      cases action with
      | subscribe subscription =>
          refine ⟨numbered, rfl, simulated.alone, ?_, reaches, ?_⟩
          · cases stepped
            rw [if_pos rfl, List.length_append, simulated.counted, List.length_append]
            rfl
          · intro id seat found whole
            rw [if_pos rfl]
            by_cases known : id < state.broker.clients.length
            · obtain ⟨reader, reached, mirrors, joined⟩ :=
                simulated.kept quiet stepped known found whole
              refine ⟨reader, reached, mirrors, ?_⟩
              rw [List.getElem?_append_left (simulated.counted ▸ known)]
              exact joined
            · obtain ⟨rfl, client⟩ := Broker.seat_of_newcomer stepped known found
              obtain ⟨reader, reached, mirrors, since⟩ := simulated.came subscription
              refine ⟨reader, simulated.switch stepped reached, client ▸ mirrors, ?_⟩
              rw [← simulated.counted, List.getElem?_concat_length, since]
      | _ => cases joins

theorem Simulated.step (simulated : Simulated windows log tail state) {action : AppAction}
    (stepped : step windows state action = some next) :
    Simulated windows log tail next := by
  cases step_cases stepped with
  | fed feeds moved => exact simulated.feed feeds moved
  | moved quiet taken => exact simulated.move quiet taken

theorem simulated_of_reached {maxQueue : Nat} {actions : List AppAction}
    (reached : exec (AppState.step windows)
      { pipeline := { log, tail }, broker := { maxQueue } } actions = some state) :
    Simulated windows log tail state := by
  refine exec_invariant (motive := Simulated windows log tail) ?_ ?_ reached
  · refine ⟨Broker.numbered_empty maxQueue false, rfl, rfl, rfl, ⟨[], rfl⟩, ?_⟩
    intro id seat found
    cases found
  · intro middle action finish simulated stepped
    exact simulated.step stepped

/-- The reader that a registered client without filters is, if it has missed nothing. -/
theorem Simulated.reader_of_registered (simulated : Simulated windows log tail state)
    {id : Nat} {client : Client} (present : state.broker.clients[id]? = some client)
    (registered : id ∈ state.broker.registered) (all : client.subscription = {})
    (kept : client.dropped = 0) :
    ∃ reader : Reader,
      Pipeline.Reaches windows log tail { state.pipeline with reader := some reader } ∧
        reader.Mirrors client ∧ state.joined[id]? = some reader.since := by
  have found : state.broker.seat id = some ⟨client, true⟩ := by
    rw [Broker.seat, present, Option.map_some, decide_eq_true registered]
  exact simulated.mirrored id _ found ⟨rfl, all, kept⟩

/-- Whoever else is connected and however slowly they read: a client without filters that is
registered and has missed nothing is the one reader of some run of the pipeline, which leaves
everything else as it is. -/
theorem refines_pipeline {maxQueue : Nat} {actions : List AppAction}
    (reached : exec (AppState.step windows)
      { pipeline := { log, tail }, broker := { maxQueue } } actions = some state)
    {id : Nat} {client : Client} (present : state.broker.clients[id]? = some client)
    (registered : id ∈ state.broker.registered) (all : client.subscription = {})
    (kept : client.dropped = 0) :
    ∃ (taken : List PipelineAction) (reader : Reader),
      exec (Pipeline.step windows) { log, tail } taken =
          some { state.pipeline with reader := some reader } ∧
        reader.connected = true ∧ state.joined[id]? = some reader.since ∧
        reader.received.map Emission.event = client.read.filterMap QueueItem.event? ∧
        reader.queue.map Emission.event = client.queue.filterMap QueueItem.event? := by
  obtain ⟨reader, ⟨taken, arrives⟩, mirrors, joined⟩ :=
    (simulated_of_reached reached).reader_of_registered present registered all kept
  exact ⟨taken, reader, arrives, mirrors.connected, joined, mirrors.received, mirrors.queue⟩

/-- So each of them catches up: where it started from the orders as the events stored by then
left them, it shows an order as the newest event left it once nothing of the order is on its
way, if that event was neither lost nor suppressed and the events of the order went out by
increasing seq. -/
theorem every_client_catches_up {maxQueue : Nat} {actions : List AppAction}
    (reached : exec (AppState.step windows)
      { pipeline := { log, tail }, broker := { maxQueue } } actions = some state)
    (fitting : ∀ draft ∈ state.pipeline.appended, draft.args.Fitting) {orderId : String}
    (inOrder : InSeqOrderOf orderId state.pipeline.buffer.emitted)
    {id since : Nat} {client : Client} (present : state.broker.clients[id]? = some client)
    (came : state.joined[id]? = some since) (registered : id ∈ state.broker.registered)
    (all : client.subscription = {}) (kept : client.dropped = 0)
    (queued : ∀ item ∈ client.queue, ∀ event, item.event? = some event → event.orderId ≠ orderId)
    (handed : ∀ event, state.pipeline.handed = some event → event.orderId ≠ orderId)
    (flushed : ∀ entry ∈ state.pipeline.buffer.held, entry.latest.orderId ≠ orderId)
    (told : ∀ newest,
      (AuditTrail.eventsOf orderId state.pipeline.appended).getLast? = some newest →
        newest.event ∉ state.pipeline.unconfirmed ∧
          ∀ emission ∈ state.pipeline.suppressed, newest.event ∉ emission.members)
    (orders : Orders) :
    ((client.read.filterMap QueueItem.event?).foldl applyEvent
        (Pipeline.shown orders (state.pipeline.appended.take since))).get? orderId =
      (Pipeline.shown orders state.pipeline.appended).get? orderId := by
  obtain ⟨reader, ⟨taken, arrives⟩, mirrors, joined⟩ :=
    (simulated_of_reached reached).reader_of_registered present registered all kept
  have same : since = reader.since := Option.some.inj (came.symm.trans joined)
  obtain ⟨bufferActions, projected, increasing, joins⟩ := Pipeline.joined_of_reached arrives
  obtain ⟨earlier, later, soFar⟩ := joins reader rfl
  have silent : ∀ emission ∈ reader.queue, emission.event.orderId ≠ orderId := by
    intro emission member
    have listed := List.mem_map_of_mem (f := Emission.event) member
    rw [mirrors.queue] at listed
    obtain ⟨item, waits, told⟩ := List.mem_filterMap.mp listed
    exact queued item waits emission.event told
  have settled : ({ state.pipeline with reader := some reader } : Pipeline).Settled reader
      orderId := ⟨mirrors.connected, silent, handed, flushed, told⟩
  have shows := soFar.shows_newest projected increasing fitting inOrder settled orders
  rw [mirrors.received] at shows
  rw [same]
  exact shows

end

def slowAndFast : List AppAction :=
  [.broker (.subscribe {}), .broker (.subscribe {}),
    .pipe (.append Pipeline.statusArgs "first" sampleTime), .pipe .add, .pipe (.expire 0),
    .broker (.read 1), .pipe (.append Pipeline.statusArgs "second" sampleTime), .pipe .add,
    .pipe (.expire 1), .broker (.read 1)]

theorem second_of_slowAndFast :
    ∃ (state : AppState) (client : Client), exec (AppState.step CohesionBuffer.sampleWindows)
        { pipeline := { log := [], tail := ⟨0, auditGenesisHash⟩ }, broker := { maxQueue := 1 } }
        slowAndFast = some state ∧
      state.broker.clients.map Client.dropped = [1, 0] ∧
      state.broker.clients[1]? = some client ∧ 1 ∈ state.broker.registered ∧
      client.subscription = {} ∧ client.dropped = 0 ∧ client.queue = [] ∧
      client.read.length = 2 := by
  have facts : (exec (AppState.step CohesionBuffer.sampleWindows)
      { pipeline := { log := [], tail := ⟨0, auditGenesisHash⟩ }, broker := { maxQueue := 1 } }
      slowAndFast).map (fun state => (state.broker.clients.map Client.dropped,
        state.broker.registered)) = some ([1, 0], [0, 1]) := by
    decide +kernel
  have second : (exec (AppState.step CohesionBuffer.sampleWindows)
      { pipeline := { log := [], tail := ⟨0, auditGenesisHash⟩ }, broker := { maxQueue := 1 } }
      slowAndFast).map (fun state => state.broker.clients[1]?.map fun client =>
        (client.subscription.intents.isNone && client.subscription.customer.isNone,
          client.dropped, client.queue.length, client.read.length)) =
      some (some (true, 0, 0, 2)) := by
    decide +kernel
  obtain ⟨state, reached, shape⟩ := Option.map_eq_some_iff.mp facts
  obtain ⟨dropped, registered⟩ := Prod.mk.inj shape
  rw [reached, Option.map_some, Option.some.injEq] at second
  obtain ⟨client, present, counts⟩ := Option.map_eq_some_iff.mp second
  simp only [Prod.mk.injEq, Bool.and_eq_true, Option.isNone_iff_eq_none,
    List.length_eq_zero_iff] at counts
  obtain ⟨⟨intents, customer⟩, kept, queue, read⟩ := counts
  refine ⟨state, client, reached, dropped, present, ?_, ?_, kept, queue, read⟩
  · rw [registered]
    decide
  · have parts : client.subscription =
        ⟨client.subscription.intents, client.subscription.customer⟩ := rfl
    rw [parts, intents, customer]

theorem refines_pipeline_of_second :
    ∃ (state : AppState) (client : Client) (taken : List PipelineAction) (reader : Reader),
      exec (AppState.step CohesionBuffer.sampleWindows)
          { pipeline := { log := [], tail := ⟨0, auditGenesisHash⟩ }
            broker := { maxQueue := 1 } } slowAndFast = some state ∧
      state.broker.clients.map Client.dropped = [1, 0] ∧
      exec (Pipeline.step CohesionBuffer.sampleWindows) { log := [], tail := ⟨0, auditGenesisHash⟩ }
        taken = some { state.pipeline with reader := some reader } ∧
      reader.received.map Emission.event = client.read.filterMap QueueItem.event? ∧
      client.read.length = 2 := by
  obtain ⟨state, client, reached, dropped, present, registered, all, kept, -, read⟩ :=
    second_of_slowAndFast
  obtain ⟨taken, reader, arrives, -, -, received, -⟩ :=
    refines_pipeline reached present registered all kept
  exact ⟨state, client, taken, reader, reached, dropped, arrives, received, read⟩

theorem every_client_catches_up_of_second :
    ∃ (state : AppState) (client : Client),
      exec (AppState.step CohesionBuffer.sampleWindows)
          { pipeline := { log := [], tail := ⟨0, auditGenesisHash⟩ }
            broker := { maxQueue := 1 } } slowAndFast = some state ∧
      state.broker.clients.map Client.dropped = [1, 0] ∧ client.read.length = 2 ∧
      ((client.read.filterMap QueueItem.event?).foldl applyEvent
          (Pipeline.shown ∅ (state.pipeline.appended.take 0))).get? "1" =
        (Pipeline.shown ∅ state.pipeline.appended).get? "1" := by
  have told : (exec (AppState.step CohesionBuffer.sampleWindows)
      { pipeline := { log := [], tail := ⟨0, auditGenesisHash⟩ }, broker := { maxQueue := 1 } }
      slowAndFast).map (fun state => (state.joined,
        state.pipeline.buffer.emitted.map fun emission =>
          (emission.event.orderId, emission.event.seq),
        state.pipeline.appended.all fun draft =>
          decide (draft.args.op ≠ .delete) && draft.args.after.isSome)) =
      some ([0, 0], [("1", 1), ("1", 2)], true) := by
    decide +kernel
  have left : (exec (AppState.step CohesionBuffer.sampleWindows)
      { pipeline := { log := [], tail := ⟨0, auditGenesisHash⟩ }, broker := { maxQueue := 1 } }
      slowAndFast).map (fun state => (state.pipeline.handed.isNone,
        state.pipeline.unconfirmed.length, state.pipeline.buffer.held.length,
        state.pipeline.suppressed.length)) = some (true, 0, 0, 0) := by
    decide +kernel
  obtain ⟨state, client, reached, dropped, present, registered, all, kept, queue, read⟩ :=
    second_of_slowAndFast
  rw [reached, Option.map_some, Option.some.injEq] at told left
  simp only [Prod.mk.injEq, List.all_eq_true, Bool.and_eq_true, decide_eq_true_eq] at told
  simp only [Prod.mk.injEq, List.length_eq_zero_iff, Option.isNone_iff_eq_none] at left
  obtain ⟨joined, emitted, fitting⟩ := told
  obtain ⟨idle, unconfirmed, held, suppressed⟩ := left
  refine ⟨state, client, reached, dropped, read, every_client_catches_up reached ?_
    (InSeqOrder.of ?_ "1") present (by rw [joined]; rfl) registered all kept ?_ ?_ ?_ ?_ ∅⟩
  · intro draft member
    obtain ⟨stays, told⟩ := fitting draft member
    exact iff_of_false stays (Option.isSome_iff_ne_none.mp told)
  · rw [CohesionBuffer.inSeqOrder_iff_map, emitted]
    decide
  · rw [queue]
    exact fun _ member => absurd member List.not_mem_nil
  · rw [idle]
    exact fun _ handed => by cases handed
  · rw [held]
    exact fun _ member => absurd member List.not_mem_nil
  · intro newest _
    rw [unconfirmed, suppressed]
    exact ⟨List.not_mem_nil, fun _ member => absurd member List.not_mem_nil⟩

end AppState

end OrderStream
