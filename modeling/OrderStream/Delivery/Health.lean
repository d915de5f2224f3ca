import OrderStream.Delivery.Isolation
import OrderStream.Spine.EventSpine

/-! What the process says of its health: the periodic emitter, the kill-switch requests
and `/health`. -/

namespace OrderStream

open Transition

inductive HealthStatus where
  | critical
  | degraded
  | nominal
  deriving DecidableEq

def HealthStatus.value : HealthStatus → String
  | .critical => "critical"
  | .degraded => "degraded"
  | .nominal => "nominal"

theorem HealthStatus.value_eq_nominal (status : HealthStatus) :
    status.value = "nominal" ↔ status = .nominal := by
  cases status with
  | critical => decide
  | degraded => decide
  | nominal => decide

/-- A reading of the clock, in microseconds. -/
abbrev Instant := Int

/-- `append` to a `deque(maxlen=size)` -/
def pushBounded (size : Nat) (window : List Instant) (t : Instant) : List Instant :=
  (window ++ [t]).drop (window.length + 1 - size)

structure HealthState where
  startedAt : Instant
  watcherAlive : Bool := false
  dbConnected : Bool := false
  lastEventAt : Option Instant := none
  eventsWindow : List Instant := []

namespace HealthState

def recordEvent (health : HealthState) (now : Instant) : HealthState :=
  { health with
    eventsWindow := pushBounded 5000 health.eventsWindow now
    lastEventAt := some now }

def uptime (health : HealthState) (now : Instant) : Int :=
  (now - health.startedAt).tdiv 1000000

def eventsInWindow (health : HealthState) (now : Instant) (seconds : Int := 60) : Nat :=
  health.eventsWindow.countP fun t => now - seconds * 1000000 ≤ t

def streamLagMs (health : HealthState) (now : Instant) : Int :=
  match health.lastEventAt with
  | none => 0
  | some last => max 0 (now - last) / 1000

def classify (health : HealthState) (streamLagMs : Int) (dropped60s : Nat) : HealthStatus :=
  if !health.dbConnected || !health.watcherAlive then .critical
  else if streamLagMs > 30000 ∨ dropped60s > 50 then .degraded
  else .nominal

theorem classify_ne_nominal_iff (health : HealthState) (streamLagMs : Int)
    (dropped60s : Nat) :
    health.classify streamLagMs dropped60s ≠ .nominal ↔
      health.dbConnected = false ∨ health.watcherAlive = false ∨ streamLagMs > 30000 ∨
        dropped60s > 50 := by
  unfold classify
  cases health.dbConnected with
  | false => simp
  | true =>
      cases health.watcherAlive with
      | false => simp
      | true =>
          by_cases bad : streamLagMs > 30000 ∨ dropped60s > 50
          · simp [bad]
          · simp [bad]

end HealthState

/-- `bool(value)` -/
def Value.truthy : Value → Bool
  | .null => false
  | .bool value => value
  | .int value => decide (value ≠ 0)
  | .float value => decide (value.magnitude? ≠ some (.finite 0))
  | .str value => decide (value ≠ "")
  | .bytes value => !value.isEmpty
  | .list items | .tuple items => !items.isEmpty
  | .dict fields => !fields.isEmpty
  | .temporal _ | .uuid _ | .other _ _ => true

/-- `value or default` -/
def Value.orText (value : Value) (default : String) : Value :=
  if value.truthy then value else .str default

def engagedPayload (reason : Value) : Doc where
  entries :=
    [("__type__", .str "system_health"), ("status", .str "critical"),
      ("kill_switch_engaged", .bool true), ("reason", reason)]
  nodup := by
    simp only [List.map_cons, List.map_nil]
    decide

def releasedPayload : Doc where
  entries :=
    [("__type__", .str "system_health"), ("status", .str "nominal"),
      ("kill_switch_released", .bool true)]
  nodup := by decide

/-- `(payload.get("action") or "engage").lower() == "release"`.  Only letters of ASCII
have those of `release` in lower case. -/
def asksRelease (payload : Doc) : Except PyError Bool :=
  match (payload.get "action").orText "engage" with
  | .str action => .ok (decide (action.toList.map Char.toLower = "release".toList))
  | _ => .error .attributeError

structure BrokerStats where
  clientsConnected : Nat
  queueHighWatermark : Nat
  droppedEvents60s : Nat
  maxQueue : Nat

/-- The broker and what it is watched by.  `marks` counts the items that were put into
each queue before the kill-switch was last turned on; it is not in the source. -/
structure Monitor where
  broker : Broker
  droppedWindow : List Instant := []
  health : HealthState
  now : Instant
  marks : List Nat := []

def Client.history (client : Client) : List QueueItem := client.read ++ client.queue

def BrokerAction.isSystem : BrokerAction → Bool
  | .broadcastSystem _ => true
  | _ => false

def QueueItem.system? : QueueItem → Option Doc
  | .system payload => some payload
  | .event _ | .ping _ => none

namespace Monitor

def stats (monitor : Monitor) : BrokerStats where
  clientsConnected := monitor.broker.registered.length
  queueHighWatermark :=
    (monitor.broker.registered.filterMap fun id => monitor.broker.clients[id]?).foldl
      (fun high client => max high client.queue.length) 0
  droppedEvents60s := monitor.droppedWindow.countP fun t => monitor.now - t < 60 * 1000000
  maxQueue := monitor.broker.maxQueue

def lag (monitor : Monitor) : Int := monitor.health.streamLagMs monitor.now

def status (monitor : Monitor) : HealthStatus :=
  monitor.health.classify monitor.lag monitor.stats.droppedEvents60s

def healthPayload (monitor : Monitor) : Doc where
  entries :=
    [("__type__", .str "system_health"),
      ("status", .str monitor.status.value),
      ("stream_lag_ms", .int monitor.lag),
      ("clients_connected", .int monitor.stats.clientsConnected),
      ("events_emitted_60s", .int (monitor.health.eventsInWindow monitor.now)),
      ("queue_high_watermark", .int monitor.stats.queueHighWatermark),
      ("dropped_events_60s", .int monitor.stats.droppedEvents60s),
      ("uptime_seconds", .int (monitor.health.uptime monitor.now)),
      ("watcher_alive", .bool monitor.health.watcherAlive),
      ("db_connected", .bool monitor.health.dbConnected)]
  nodup := by
    simp only [List.map_cons, List.map_nil]
    decide

/-- `GET /health`, beside a spine with this tail. -/
def healthResponse (monitor : Monitor) (tail : Tail) : Doc where
  entries :=
    [("status", .str monitor.status.value),
      ("uptime_seconds", .int (monitor.health.uptime monitor.now)),
      ("db_connected", .bool monitor.health.dbConnected),
      ("watcher_alive", .bool monitor.health.watcherAlive),
      ("stream_lag_ms", .int monitor.lag),
      ("events_emitted_60s", .int (monitor.health.eventsInWindow monitor.now)),
      ("clients_connected", .int monitor.stats.clientsConnected),
      ("queue_high_watermark", .int monitor.stats.queueHighWatermark),
      ("dropped_events_60s", .int monitor.stats.droppedEvents60s),
      ("spine", .dict [("last_seq", .int tail.seq), ("head_hash", .str tail.hash)])]
  nodup := by
    simp only [List.map_cons, List.map_nil]
    decide

def broadcastSystem (monitor : Monitor) (payload : Doc) : Monitor :=
  { monitor with broker := monitor.broker.broadcastSystem payload }

def offer (event : Event) (monitor : Monitor) (id : Nat) : Monitor :=
  let drops := match monitor.broker.clients[id]? with
    | none => false
    | some client =>
        client.subscription.matches event && client.full monitor.broker.maxQueue
  { monitor with
    broker := monitor.broker.offer event id
    droppedWindow :=
      if drops then pushBounded 10000 monitor.droppedWindow monitor.now
      else monitor.droppedWindow }

def broadcast (monitor : Monitor) (event : Event) : Monitor :=
  if monitor.broker.engaged then monitor
  else monitor.broker.registered.foldl (offer event) monitor

def engage (monitor : Monitor) : Monitor :=
  { monitor with
    broker := { monitor.broker with engaged := true }
    marks :=
      if monitor.broker.engaged then monitor.marks
      else monitor.broker.clients.map fun client => client.history.length }

def release (monitor : Monitor) : Monitor :=
  { monitor with broker := { monitor.broker with engaged := false } }

/-- `POST /admin/kill-switch` -/
def killSwitch (monitor : Monitor) (payload : Doc) : Except PyError Monitor := do
  if ← asksRelease payload then
    let was := monitor.broker.engaged
    let monitor := monitor.release
    pure (if was then monitor.broadcastSystem releasedPayload else monitor)
  else
    let reason := (payload.get "reason").orText "manual operator action"
    pure (monitor.engage.broadcastSystem (engagedPayload reason))

end Monitor

/-- `watcher` and `database` are the assignments to `HEALTH`; `clock` is a later reading,
or an earlier one where the clock was set. -/
inductive MonitorAction where
  | killSwitch (payload : Doc)
  | tick
  | subscribe (subscription : Subscription)
  | unsubscribe (id : Nat)
  | heartbeat (id : Nat) (t : Rat)
  | read (id : Nat)
  | broadcast (event : Event)
  | recordEvent
  | watcher (alive : Bool)
  | database (connected : Bool)
  | clock (now : Instant)

namespace Monitor

def onBroker (monitor : Monitor) (action : BrokerAction) : Option Monitor :=
  (Broker.step monitor.broker action).map fun broker => { monitor with broker }

def step (monitor : Monitor) : MonitorAction → Option Monitor
  | .killSwitch payload =>
      match monitor.killSwitch payload with
      | .ok next => some next
      | .error _ => some monitor
  | .tick => some (monitor.broadcastSystem monitor.healthPayload)
  | .subscribe subscription => monitor.onBroker (.subscribe subscription)
  | .unsubscribe id => monitor.onBroker (.unsubscribe id)
  | .heartbeat id t => monitor.onBroker (.heartbeat id t)
  | .read id => monitor.onBroker (.read id)
  | .broadcast event => some (monitor.broadcast event)
  | .recordEvent => some { monitor with health := monitor.health.recordEvent monitor.now }
  | .watcher alive => some { monitor with health := { monitor.health with watcherAlive := alive } }
  | .database connected =>
      some { monitor with health := { monitor.health with dbConnected := connected } }
  | .clock now => some { monitor with now }

end Monitor

theorem Client.history_take (client : Client) : client.take.history = client.history := by
  unfold Client.history Client.take
  cases client.queue <;> simp

theorem Client.history_tryPut (client : Client) (maxQueue : Nat) (item : QueueItem) :
    (client.tryPut maxQueue item).history =
      if client.full maxQueue then client.history else client.history ++ [item] := by
  unfold Client.tryPut
  split
  · rfl
  · exact (List.append_assoc ..).symm

theorem Seat.history_offer (maxQueue : Nat) (event : Event) (seat : Seat) :
    ∃ items, (seat.offer maxQueue event).client.history = seat.client.history ++ items ∧
      items.filterMap QueueItem.system? = [] := by
  have same : ∃ items, seat.client.history = seat.client.history ++ items ∧
      items.filterMap QueueItem.system? = [] := ⟨[], (List.append_nil _).symm, rfl⟩
  unfold Seat.offer
  split
  · exact same
  · split
    · dsimp only
      split
      · exact same
      · exact same
    · exact ⟨[.event event], (List.append_assoc ..).symm, rfl⟩

/-- Nothing but a system broadcast puts a system item into a queue. -/
theorem Seat.history_after (maxQueue : Nat) (engaged : Bool) (seat : Seat)
    {action : BrokerAction} (other : action.isSystem = false) :
    ∃ items, (seat.after maxQueue engaged action).client.history =
        seat.client.history ++ items ∧ items.filterMap QueueItem.system? = [] := by
  have same : ∃ items, seat.client.history = seat.client.history ++ items ∧
      items.filterMap QueueItem.system? = [] := ⟨[], (List.append_nil _).symm, rfl⟩
  cases action with
  | subscribe _ | unsubscribe _ | engage | release => exact same
  | broadcast event =>
      simp only [Seat.after]
      split
      · exact same
      · split
        · exact seat.history_offer maxQueue event
        · exact same
  | broadcastSystem payload => cases other
  | heartbeat id t =>
      have queued : (seat.after maxQueue engaged (.heartbeat id t)).client.history = _ :=
        seat.client.history_tryPut maxQueue (.ping t)
      split at queued
      · exact ⟨[], queued.trans (List.append_nil _).symm, rfl⟩
      · exact ⟨[.ping t], queued, rfl⟩
  | read id => exact ⟨[], seat.client.history_take.trans (List.append_nil _).symm, rfl⟩

theorem BrokerAction.isSystem_own {id : Nat} {action own : BrokerAction}
    (owned : action.own id = some own) : own.isSystem = action.isSystem := by
  cases action with
  | subscribe _ => cases owned
  | broadcast _ | broadcastSystem _ | engage | release =>
      cases owned
      rfl
  | unsubscribe _ | heartbeat _ _ | read _ =>
      obtain ⟨-, same⟩ := Option.ite_none_right_eq_some.mp owned
      cases same
      rfl

namespace Broker

variable {broker next : Broker} {id : Nat}

theorem client_of_seat {seat : Seat} (found : broker.seat id = some seat) :
    broker.clients[id]? = some seat.client := by
  obtain ⟨client, known, rfl⟩ := Option.map_eq_some_iff.mp found
  exact known

theorem history_step (numbered : broker.Numbered) {action : BrokerAction}
    (other : action.isSystem = false)
    (stepped : step broker action = some next) {after : Client}
    (found : next.clients[id]? = some after) :
    (broker.clients.length ≤ id ∧ after.history = []) ∨
      ∃ before, broker.clients[id]? = some before ∧
        ∃ items, after.history = before.history ++ items ∧
          items.filterMap QueueItem.system? = [] := by
  by_cases known : id < broker.clients.length
  · have seats := client_of_seat (seat_after_step numbered (seat_of_known known) stepped)
    cases found.symm.trans seats
    refine Or.inr ⟨broker.clients[id], List.getElem?_eq_getElem known, ?_⟩
    unfold seatAfter
    cases own : action.own id with
    | none => exact ⟨[], (List.append_nil _).symm, rfl⟩
    | some own' =>
        exact Seat.history_after _ _ _ ((BrokerAction.isSystem_own own).trans other)
  · left
    have inside := (List.getElem?_eq_some_iff.mp found).1
    cases action with
    | subscribe subscription =>
        cases stepped
        have last : id = broker.clients.length := by
          rw [List.length_append, List.length_singleton] at inside
          omega
        subst last
        rw [List.getElem?_concat_length] at found
        cases found
        exact ⟨le_rfl, rfl⟩
    | _ =>
        rw [length_step_of_old stepped rfl] at inside
        exact absurd inside known

theorem history_broadcastSystem (numbered : broker.Numbered) (payload : Doc) {after : Client}
    (found : (broker.broadcastSystem payload).clients[id]? = some after) :
    ∃ before, broker.clients[id]? = some before ∧
      after.history =
        if id ∈ broker.registered ∧ before.full broker.maxQueue = false then
          before.history ++ [.system payload]
        else before.history := by
  have known : id < broker.clients.length := by
    rw [← (narrows_broadcastSystem broker payload).clients]
    exact (List.getElem?_eq_some_iff.mp found).1
  have seats := seat_broadcastSystem numbered payload id
  rw [seat_of_known known, Option.map_some] at seats
  have same := Option.some.inj (found.symm.trans (client_of_seat seats))
  refine ⟨broker.clients[id], List.getElem?_eq_getElem known, ?_⟩
  rw [same]
  by_cases registered : id ∈ broker.registered
  · simp only [Seat.after, registered, decide_true, if_true, Seat.update, true_and]
    rw [Client.history_tryPut]
    cases broker.clients[id].full broker.maxQueue with
    | false => rfl
    | true => rfl
  · simp [Seat.after, registered]

end Broker

namespace Monitor

variable {monitor next : Monitor}

theorem broadcast_eq (monitor : Monitor) (event : Event) :
    ∃ droppedWindow, monitor.broadcast event =
      { monitor with broker := monitor.broker.broadcast event, droppedWindow } := by
  have loop (ids : List Nat) (monitor : Monitor) : ∃ droppedWindow,
      ids.foldl (offer event) monitor =
        { monitor with
          broker := ids.foldl (Broker.offer event) monitor.broker
          droppedWindow } := by
    induction ids generalizing monitor with
    | nil => exact ⟨monitor.droppedWindow, rfl⟩
    | cons id rest ih =>
        obtain ⟨droppedWindow, equal⟩ := ih (monitor.offer event id)
        exact ⟨droppedWindow, equal⟩
  unfold broadcast Broker.broadcast
  split
  · exact ⟨monitor.droppedWindow, rfl⟩
  · exact loop monitor.broker.registered monitor

inductive Step (monitor : Monitor) : MonitorAction → Monitor → Prop where
  | refused {payload : Doc} {error : PyError} : asksRelease payload = .error error →
      Step monitor (.killSwitch payload) monitor
  | released {payload : Doc} : asksRelease payload = .ok true →
      Step monitor (.killSwitch payload)
        (if monitor.broker.engaged then monitor.release.broadcastSystem releasedPayload
          else monitor.release)
  | engaged {payload : Doc} : asksRelease payload = .ok false →
      Step monitor (.killSwitch payload)
        (monitor.engage.broadcastSystem
          (engagedPayload ((payload.get "reason").orText "manual operator action")))
  | ticked : Step monitor .tick (monitor.broadcastSystem monitor.healthPayload)
  | relayed {action : MonitorAction} {brokerAction : BrokerAction} {broker : Broker}
      {droppedWindow : List Instant} :
      action ≠ .tick → brokerAction.isSystem = false →
      Broker.step monitor.broker brokerAction = some broker →
      broker.engaged = monitor.broker.engaged →
        Step monitor action { monitor with broker, droppedWindow }
  | observed {action : MonitorAction} {health : HealthState} {now : Instant} :
      action ≠ .tick → Step monitor action { monitor with health, now }

theorem step_relayed {action : MonitorAction} {brokerAction : BrokerAction}
    (moved : monitor.onBroker brokerAction = some next) (other : action ≠ .tick)
    (plain : brokerAction.isSystem = false)
    (calm : Broker.engagedAfter monitor.broker.engaged brokerAction = monitor.broker.engaged) :
    Step monitor action next := by
  obtain ⟨broker, taken, rfl⟩ := Option.map_eq_some_iff.mp moved
  exact .relayed other plain taken ((Broker.engaged_step taken).trans calm)

theorem step_cases {action : MonitorAction} (stepped : step monitor action = some next) :
    Step monitor action next := by
  cases action with
  | killSwitch payload =>
      simp only [step, killSwitch] at stepped
      cases asked : asksRelease payload with
      | error error =>
          rw [asked] at stepped
          cases stepped
          exact .refused asked
      | ok release =>
          rw [asked] at stepped
          cases release with
          | true =>
              cases stepped
              exact .released asked
          | false =>
              cases stepped
              exact .engaged asked
  | tick =>
      cases stepped
      exact .ticked
  | broadcast event =>
      cases stepped
      obtain ⟨droppedWindow, equal⟩ := monitor.broadcast_eq event
      rw [equal]
      have taken : Broker.step monitor.broker (.broadcast event) =
          some (monitor.broker.broadcast event) := rfl
      exact .relayed (by simp) rfl taken (Broker.engaged_step taken)
  | subscribe _ | unsubscribe _ | heartbeat _ _ | read _ =>
      exact step_relayed stepped (by simp) rfl rfl
  | recordEvent | watcher _ | database _ | clock _ =>
      cases stepped
      exact .observed (by simp)

/-- The last `system_health` item put into the queue of the client since the kill-switch
was turned on. -/
def latest (marks : List Nat) (id : Nat) (client : Client) : Option Doc :=
  ((client.history.drop (marks.getD id 0)).filterMap QueueItem.system?).getLast?

/-- While the kill-switch is on, no client was told last that all is well. -/
def ClientsWarned (monitor : Monitor) : Prop :=
  monitor.broker.engaged = true → ∀ id client, monitor.broker.clients[id]? = some client →
    ∀ payload, latest monitor.marks id client = some payload →
      payload.get "status" ≠ .str "nominal"

def RouteWarns (monitor : Monitor) : Prop :=
  monitor.broker.engaged = true → ∀ tail,
    (monitor.healthResponse tail).get "status" ≠ .str "nominal"

def Unhealthy (monitor : Monitor) : Prop :=
  monitor.health.dbConnected = false ∨ monitor.health.watcherAlive = false ∨
    monitor.lag > 30000 ∨ monitor.stats.droppedEvents60s > 50

instance (monitor : Monitor) : Decidable monitor.Unhealthy :=
  inferInstanceAs (Decidable (_ ∨ _ ∨ _ ∨ _))

def Heard (monitor : Monitor) : Prop :=
  ∃ id client, id ∈ monitor.broker.registered ∧ monitor.broker.clients[id]? = some client ∧
    client.full monitor.broker.maxQueue = false

/-- A tick that is heard while the kill-switch is on finds something at fault. -/
def TickWarns (monitor : Monitor) (action : MonitorAction) : Prop :=
  action = .tick → monitor.broker.engaged = true → monitor.Heard → monitor.Unhealthy

theorem status_warns_iff (monitor : Monitor) :
    Value.str monitor.status.value ≠ .str "nominal" ↔ monitor.Unhealthy := by
  rw [ne_eq, Value.str.injEq, HealthStatus.value_eq_nominal]
  exact HealthState.classify_ne_nominal_iff _ _ _

theorem engagedPayload_status (reason : Value) :
    (engagedPayload reason).get "status" = .str "critical" := rfl

theorem healthPayload_status (monitor : Monitor) :
    monitor.healthPayload.get "status" = .str monitor.status.value := rfl

theorem healthResponse_status (monitor : Monitor) (tail : Tail) :
    (monitor.healthResponse tail).get "status" = .str monitor.status.value := rfl

theorem routeWarns_iff (monitor : Monitor) :
    monitor.RouteWarns ↔ (monitor.broker.engaged = true → monitor.Unhealthy) := by
  apply imp_congr_right
  intro _
  rw [← status_warns_iff]
  constructor
  · intro warns
    exact warns ⟨0, ""⟩
  · intro warns tail
    rwa [healthResponse_status]

structure Marked (monitor : Monitor) : Prop where
  numbered : monitor.broker.Numbered
  known : monitor.marks.length ≤ monitor.broker.clients.length
  marks : ∀ id client, monitor.broker.clients[id]? = some client →
    monitor.marks.getD id 0 ≤ client.history.length

theorem latest_append {marks : List Nat} {id : Nat} {before after : Client}
    {items : List QueueItem} (grown : after.history = before.history ++ items)
    (bound : marks.getD id 0 ≤ before.history.length) :
    latest marks id after =
      (items.filterMap QueueItem.system?).getLast?.or (latest marks id before) := by
  unfold latest
  rw [grown, List.drop_append_of_le_length bound, List.filterMap_append, List.getLast?_append]

@[simp] theorem broadcastSystem_marks (monitor : Monitor) (payload : Doc) :
    (monitor.broadcastSystem payload).marks = monitor.marks := rfl

@[simp] theorem broadcastSystem_engaged (monitor : Monitor) (payload : Doc) :
    (monitor.broadcastSystem payload).broker.engaged = monitor.broker.engaged :=
  (Broker.narrows_broadcastSystem monitor.broker payload).engaged

theorem marked_broadcastSystem (marked : monitor.Marked) (payload : Doc) :
    (monitor.broadcastSystem payload).Marked := by
  have narrows := Broker.narrows_broadcastSystem monitor.broker payload
  refine ⟨narrows.numbered marked.numbered, marked.known.trans_eq narrows.clients.symm, ?_⟩
  intro id after found
  obtain ⟨before, known, grown⟩ := Broker.history_broadcastSystem marked.numbered payload found
  refine (marked.marks id before known).trans ?_
  rw [grown]
  split
  · rw [List.length_append]
    exact Nat.le_add_right _ _
  · exact le_rfl

theorem marked_engage (marked : monitor.Marked) : monitor.engage.Marked := by
  obtain ⟨numbered, known, marks⟩ := marked
  refine ⟨⟨numbered.distinct, numbered.known⟩, ?_, ?_⟩
  · unfold engage
    dsimp only
    split
    · exact known
    · rw [List.length_map]
  · intro id client found
    unfold engage
    dsimp only
    split
    · exact marks id client found
    · have present : monitor.broker.clients[id]? = some client := found
      rw [List.getD_eq_getElem?_getD, List.getElem?_map, present]
      exact le_rfl

theorem marked_step (marked : monitor.Marked) {action : MonitorAction}
    (stepped : step monitor action = some next) : next.Marked := by
  have released : monitor.release.Marked :=
    ⟨⟨marked.numbered.distinct, marked.numbered.known⟩, marked.known, marked.marks⟩
  cases step_cases stepped with
  | refused _ => exact marked
  | released _ =>
      split
      · exact marked_broadcastSystem released _
      · exact released
  | engaged _ => exact marked_broadcastSystem (marked_engage marked) _
  | ticked => exact marked_broadcastSystem marked _
  | @relayed _ brokerAction broker _ _ plain taken _ =>
      refine ⟨Broker.numbered_step marked.numbered taken, ?_, ?_⟩
      · refine marked.known.trans ?_
        exact Broker.length_step_le taken
      · intro id after found
        rcases Broker.history_step marked.numbered plain taken found with
          ⟨fresh, -⟩ | ⟨before, known, items, grown, -⟩
        · have absent : monitor.marks.length ≤ id := marked.known.trans fresh
          simp [List.getD_eq_getElem?_getD, List.getElem?_eq_none absent]
        · refine (marked.marks id before known).trans ?_
          rw [grown, List.length_append]
          exact Nat.le_add_right _ _
  | observed _ => exact ⟨marked.numbered, marked.known, marked.marks⟩

theorem warned_broadcastSystem (marked : monitor.Marked) (warned : monitor.ClientsWarned)
    (payload : Doc) :
    (monitor.broadcastSystem payload).ClientsWarned ↔
      (monitor.broker.engaged = true → monitor.Heard →
        payload.get "status" ≠ .str "nominal") := by
  have narrows := Broker.narrows_broadcastSystem monitor.broker payload
  constructor
  · rintro onward engaged ⟨id, before, registered, known, room⟩
    have inside : id < (monitor.broker.broadcastSystem payload).clients.length := by
      rw [narrows.clients]
      exact marked.numbered.known id registered
    have found := List.getElem?_eq_getElem inside
    obtain ⟨same, present, grown⟩ :=
      Broker.history_broadcastSystem marked.numbered payload found
    cases known.symm.trans present
    rw [if_pos ⟨registered, room⟩] at grown
    refine onward (narrows.engaged.trans engaged) id _ found payload ?_
    rw [broadcastSystem_marks, latest_append grown (marked.marks id before known)]
    rfl
  · intro warns engaged id after found payload' last
    rw [broadcastSystem_engaged] at engaged
    obtain ⟨before, known, grown⟩ :=
      Broker.history_broadcastSystem marked.numbered payload found
    have bound := marked.marks id before known
    split at grown
    · rename_i reached
      rw [broadcastSystem_marks, latest_append grown bound] at last
      cases last
      exact warns engaged ⟨id, before, reached.1, known, reached.2⟩
    · refine warned engaged id before known payload' ?_
      rwa [broadcastSystem_marks,
        latest_append (grown.trans (List.append_nil _).symm) bound] at last

theorem warned_engage (warned : monitor.ClientsWarned) : monitor.engage.ClientsWarned := by
  intro _ id client found payload last
  cases engaged : monitor.broker.engaged with
  | true =>
      refine warned engaged id client found payload ?_
      simpa [engage, engaged] using last
  | false =>
      have present : monitor.broker.clients[id]? = some client := found
      have nothing : latest monitor.engage.marks id client = none := by
        simp [latest, engage, engaged, List.getD_eq_getElem?_getD, present]
      rw [nothing] at last
      cases last

theorem clientsWarned_step (marked : monitor.Marked) (warned : monitor.ClientsWarned)
    {action : MonitorAction} (stepped : step monitor action = some next) :
    next.ClientsWarned ↔ monitor.TickWarns action := by
  cases step_cases stepped with
  | refused _ => exact iff_of_true warned (by simp [TickWarns])
  | released _ =>
      refine iff_of_true ?_ (by simp [TickWarns])
      intro engaged
      split at engaged
      · rw [broadcastSystem_engaged] at engaged
        cases engaged
      · cases engaged
  | engaged _ =>
      refine iff_of_true ?_ (by simp [TickWarns])
      rw [warned_broadcastSystem (marked_engage marked) (warned_engage warned)]
      intro _ _ same
      rw [engagedPayload_status] at same
      exact absurd (Value.str.inj same) (by decide)
  | ticked =>
      rw [warned_broadcastSystem marked warned, healthPayload_status, status_warns_iff]
      constructor
      · intro warns _
        exact warns
      · intro warns
        exact warns rfl
  | @relayed _ _ broker _ other plain taken calm =>
      refine iff_of_true ?_ (fun same => absurd same other)
      intro engaged id after found payload last
      rcases Broker.history_step marked.numbered plain taken found with
        ⟨-, empty⟩ | ⟨before, known, items, grown, silent⟩
      · rw [latest, empty, List.drop_nil] at last
        cases last
      · refine warned (calm.symm.trans engaged) id before known payload ?_
        rwa [latest_append grown (marked.marks id before known), silent] at last
  | observed other => exact iff_of_true warned (fun same => absurd same other)

def init (maxQueue : Nat) (health : HealthState) (now : Instant) : Monitor where
  broker := { maxQueue }
  health
  now

theorem marked_init (maxQueue : Nat) (health : HealthState) (now : Instant) :
    (init maxQueue health now).Marked where
  numbered := Broker.numbered_empty maxQueue false
  known := le_rfl
  marks := by simp [init]

theorem warned_init (maxQueue : Nat) (health : HealthState) (now : Instant) :
    (init maxQueue health now).ClientsWarned := by
  intro engaged
  cases engaged

/-- In every run no client is told last that all is well while the kill-switch is on, iff
each tick that is heard while it is on finds something at fault. -/
theorem clients_warned_iff (maxQueue : Nat) (health : HealthState) (now : Instant)
    {actions : List MonitorAction}
    (reached : exec step (init maxQueue health now) actions = some monitor) :
    (∀ before after state, actions = before ++ after →
        exec step (init maxQueue health now) before = some state → state.ClientsWarned) ↔
      Along step (fun _ => TickWarns) (init maxQueue health now) actions := by
  refine always_iff_along (fun monitor => monitor.Marked ∧ monitor.ClientsWarned)
    ⟨marked_init maxQueue health now, warned_init maxQueue health now⟩
    (warned_init maxQueue health now) ?_ reached
  rintro state action finish ⟨marked, warned⟩ stepped
  have kept := clientsWarned_step marked warned stepped
  exact ⟨kept, fun warns => ⟨marked_step marked stepped, kept.mpr warns⟩⟩

/-- In every run the health signal agrees with the kill-switch, to every client and at
`/health`, iff something that `classify` looks at is at fault whenever the kill-switch is
on. -/
theorem health_signal_iff (maxQueue : Nat) (health : HealthState) (now : Instant)
    {actions : List MonitorAction}
    (reached : exec step (init maxQueue health now) actions = some monitor) :
    (∀ before after state, actions = before ++ after →
        exec step (init maxQueue health now) before = some state →
          state.ClientsWarned ∧ state.RouteWarns) ↔
      ∀ before after state, actions = before ++ after →
        exec step (init maxQueue health now) before = some state →
          state.broker.engaged = true → state.Unhealthy := by
  constructor
  · intro agrees before after state split arrived
    exact state.routeWarns_iff.mp (agrees before after state split arrived).2
  · intro faulty before after state split arrived
    refine ⟨?_, state.routeWarns_iff.mpr (faulty before after state split arrived)⟩
    refine (clients_warned_iff maxQueue health now reached).mpr ?_ before after state split
      arrived
    intro before action after split state arrived _ engaged _
    exact faulty before (action :: after) state split arrived engaged

def faultyRun : List MonitorAction :=
  [.subscribe {}, .killSwitch ∅, .tick, .read 0,
    .killSwitch ⟨[("action", .str "Release")], by decide⟩]

theorem health_signal_of_faulty :
    ∃ monitor, exec step (init 200 { startedAt := 0, dbConnected := true } 0) faultyRun =
        some monitor ∧ monitor.ClientsWarned ∧ monitor.RouteWarns := by
  have checked : ∀ before ∈ faultyRun.inits,
      ∀ state ∈ exec step (init 200 { startedAt := 0, dbConnected := true } 0) before,
        state.broker.engaged = true → state.Unhealthy := by decide +kernel
  obtain ⟨monitor, reached⟩ : ∃ monitor,
      exec step (init 200 { startedAt := 0, dbConnected := true } 0) faultyRun = some monitor :=
    ⟨_, rfl⟩
  refine ⟨monitor, reached, (health_signal_iff 200 _ 0 reached).mpr ?_ faultyRun [] monitor
    (List.append_nil _).symm reached⟩
  intro before after state split arrived
  exact checked before ((List.mem_inits ..).mpr ⟨after, split.symm⟩) state arrived

/-- All is well, the kill-switch is turned on, and the emitter ticks. -/
theorem tick_contradicts_kill_switch :
    ∃ monitor client payload,
      exec step
          (init 200 { startedAt := 0, watcherAlive := true, dbConnected := true } 0)
          [.subscribe {}, .killSwitch ∅, .tick] = some monitor ∧
        monitor.broker.engaged = true ∧ monitor.broker.clients[0]? = some client ∧
        latest monitor.marks 0 client = some payload ∧
        payload.get "status" = .str "nominal" ∧
        (monitor.healthResponse ⟨0, ""⟩).get "status" = .str "nominal" :=
  ⟨_, _, _, rfl, rfl, rfl, rfl, rfl, rfl⟩

end Monitor

end OrderStream
