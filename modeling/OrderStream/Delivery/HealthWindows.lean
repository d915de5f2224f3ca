import OrderStream.Delivery.Health
import OrderStream.Theory.Window

/-! The counts of the last minute, which are taken from bounded windows. -/

namespace OrderStream

open Transition

def Broker.dropped (broker : Broker) : Nat := (broker.clients.map Client.dropped).sum

namespace Broker

variable {broker next : Broker} {id : Nat}

theorem dropped_update {change : Client → Client}
    (same : ∀ client, (change client).dropped = client.dropped) :
    (broker.update id change).dropped = broker.dropped := by
  have kept (clients : List Client) :
      (clients.modify id change).map Client.dropped = clients.map Client.dropped := by
    apply List.ext_getElem?
    intro index
    rw [List.getElem?_map, List.getElem?_map, List.getElem?_modify]
    cases clients[index]? with
    | none => simp
    | some client =>
        dsimp only [Option.map_some]
        split
        · exact congrArg some (same client)
        · rfl
  exact congrArg List.sum (kept broker.clients)

theorem dropped_drop (known : id < broker.clients.length) :
    (broker.update id Client.drop).dropped = broker.dropped + 1 := by
  have more (clients : List Client) (index : Nat) (inside : index < clients.length) :
      ((clients.modify index Client.drop).map Client.dropped).sum =
        (clients.map Client.dropped).sum + 1 := by
    induction clients generalizing index with
    | nil => cases inside
    | cons client rest ih =>
        cases index with
        | zero =>
            simp only [List.modify_zero_cons, List.map_cons, List.sum_cons, Client.drop]
            omega
        | succ index =>
            simp only [List.modify_succ_cons, List.map_cons, List.sum_cons,
              ih index (Nat.lt_of_succ_lt_succ inside)]
            omega
  exact more broker.clients id known

theorem dropped_broadcastSystem (broker : Broker) (payload : Doc) :
    (broker.broadcastSystem payload).dropped = broker.dropped := by
  have loop (ids : List Nat) (start : Broker) :
      (ids.foldl (fun (middle : Broker) id =>
        middle.update id (Client.tryPut middle.maxQueue (.system payload))) start).dropped =
          start.dropped := by
    induction ids generalizing start with
    | nil => rfl
    | cons id rest ih =>
        rw [List.foldl_cons, ih]
        exact dropped_update fun client => client.dropped_tryPut _ _
  exact loop broker.registered broker

theorem dropped_step {action : BrokerAction} (other : ∀ event, action ≠ .broadcast event)
    (stepped : step broker action = some next) : next.dropped = broker.dropped := by
  cases step_cases stepped with
  | subscribed =>
      unfold dropped
      rw [List.map_append, List.sum_append]
      rfl
  | unsubscribed | engaged | released => rfl
  | broadcast => exact absurd rfl (other _)
  | broadcastSystem => exact broker.dropped_broadcastSystem _
  | heartbeat => exact dropped_update fun client => client.dropped_tryPut _ _
  | read _ _ => exact dropped_update fun _ => rfl

end Broker

namespace Monitor

/-- The time of each event that found a queue full, in the order of the run. -/
def drops : Monitor → List MonitorAction → List Instant :=
  observed step fun monitor _ next =>
    List.replicate (next.broker.dropped - monitor.broker.dropped) monitor.now

def recordedAt (monitor : Monitor) : MonitorAction → List Instant
  | .recordEvent => [monitor.now]
  | _ => []

def recordings : Monitor → List MonitorAction → List Instant :=
  observed step fun monitor action _ => monitor.recordedAt action

/-- The clock is not set back. -/
def Forward (monitor : Monitor) : MonitorAction → Prop
  | .clock now => monitor.now ≤ now
  | _ => True

instance (monitor : Monitor) (action : MonitorAction) : Decidable (monitor.Forward action) :=
  match action with
  | .clock now => inferInstanceAs (Decidable (monitor.now ≤ now))
  | .killSwitch _ | .tick | .subscribe _ | .unsubscribe _ | .heartbeat _ _ | .read _
  | .broadcast _ | .recordEvent | .watcher _ | .database _ => isTrue trivial

structure Windowed (monitor : Monitor) (drops recordings : List Instant) : Prop where
  dropped : monitor.droppedWindow = drops.rtake 10000
  events : monitor.health.eventsWindow = recordings.rtake 5000
  last : monitor.health.lastEventAt = recordings.getLast?
  droppedOrder : drops.Pairwise (· ≤ ·)
  eventsOrder : recordings.Pairwise (· ≤ ·)
  droppedPast : ∀ t ∈ drops, t ≤ monitor.now
  eventsPast : ∀ t ∈ recordings, t ≤ monitor.now

variable {monitor next : Monitor} {dropTimes recordTimes : List Instant}

theorem pushBounded_rtake (size : Nat) (readings : List Instant) (t : Instant) :
    pushBounded size (readings.rtake size) t = (readings ++ [t]).rtake size :=
  Window.rtake_snoc size readings t

def Missed (monitor next : Monitor) (count : Nat) : Prop :=
  next.broker.dropped = monitor.broker.dropped + count ∧ next.now = monitor.now ∧
    next.health = monitor.health ∧
      ∀ times : List Instant, monitor.droppedWindow = times.rtake 10000 →
        next.droppedWindow = (times ++ List.replicate count monitor.now).rtake 10000

theorem missed_refl (monitor : Monitor) : Missed monitor monitor 0 := by
  refine ⟨rfl, rfl, rfl, ?_⟩
  intro times kept
  rw [List.replicate_zero, List.append_nil]
  exact kept

theorem Missed.trans {middle : Monitor} {first second : Nat}
    (left : Missed monitor middle first) (right : Missed middle next second) :
    Missed monitor next (first + second) := by
  obtain ⟨leftDropped, leftNow, leftHealth, leftWindow⟩ := left
  obtain ⟨rightDropped, rightNow, rightHealth, rightWindow⟩ := right
  refine ⟨?_, rightNow.trans leftNow, rightHealth.trans leftHealth, ?_⟩
  · rw [rightDropped, leftDropped, Nat.add_assoc]
  · intro times kept
    rw [rightWindow _ (leftWindow times kept), leftNow, List.append_assoc,
      List.replicate_append_replicate]

theorem missed_offer (event : Event) (monitor : Monitor) (id : Nat) :
    ∃ count, Missed monitor (monitor.offer event id) count := by
  unfold offer Broker.offer
  cases found : monitor.broker.clients[id]? with
  | none => exact ⟨0, missed_refl monitor⟩
  | some client =>
      dsimp only
      cases client.subscription.matches event with
      | false => exact ⟨0, missed_refl monitor⟩
      | true =>
          cases full : client.full monitor.broker.maxQueue with
          | false =>
              refine ⟨0, ?_, rfl, rfl, ?_⟩
              · exact Broker.dropped_update fun _ => rfl
              · intro times kept
                rw [List.replicate_zero, List.append_nil]
                exact kept
          | true =>
              have known := (List.getElem?_eq_some_iff.mp found).1
              refine ⟨1, ?_, rfl, rfl, ?_⟩
              · have struck : (monitor.broker.update id Client.drop).dropped = _ :=
                  Broker.dropped_drop known
                simp only [Bool.not_true, Bool.false_eq_true, if_false, if_true]
                split
                · exact struck
                · exact struck
              · intro times kept
                simp only [Bool.true_and, if_true]
                rw [List.replicate_one, ← pushBounded_rtake, ← kept]

theorem missed_broadcast (monitor : Monitor) (event : Event) :
    ∃ count, Missed monitor (monitor.broadcast event) count := by
  have loop (ids : List Nat) (start : Monitor) :
      ∃ count, Missed start (ids.foldl (offer event) start) count := by
    induction ids generalizing start with
    | nil => exact ⟨0, missed_refl start⟩
    | cons id rest ih =>
        obtain ⟨first, one⟩ := missed_offer event start id
        obtain ⟨others, more⟩ := ih (start.offer event id)
        exact ⟨first + others, one.trans more⟩
  unfold broadcast
  split
  · exact ⟨0, missed_refl monitor⟩
  · exact loop monitor.broker.registered monitor

theorem missed_broadcastSystem (monitor : Monitor) (payload : Doc) :
    Missed monitor (monitor.broadcastSystem payload) 0 :=
  ⟨monitor.broker.dropped_broadcastSystem payload, rfl, rfl, (missed_refl monitor).2.2.2⟩

theorem missed_killSwitch {payload : Doc} (answered : monitor.killSwitch payload = .ok next) :
    Missed monitor next 0 := by
  unfold killSwitch at answered
  cases asked : asksRelease payload with
  | error error =>
      rw [asked] at answered
      cases answered
  | ok release =>
      rw [asked] at answered
      have released : Missed monitor monitor.release 0 := missed_refl monitor
      have engaged : Missed monitor monitor.engage 0 := missed_refl monitor
      cases release with
      | true =>
          cases answered
          split
          · exact released.trans (monitor.release.missed_broadcastSystem _)
          · exact released
      | false =>
          cases answered
          exact engaged.trans (monitor.engage.missed_broadcastSystem _)

theorem missed_onBroker {action : BrokerAction} (other : ∀ event, action ≠ .broadcast event)
    (moved : monitor.onBroker action = some next) : Missed monitor next 0 := by
  obtain ⟨broker, taken, rfl⟩ := Option.map_eq_some_iff.mp moved
  exact ⟨Broker.dropped_step other taken, rfl, rfl, (missed_refl monitor).2.2.2⟩

theorem Windowed.missed (windowed : monitor.Windowed dropTimes recordTimes) {count : Nat}
    (missed : Missed monitor next count) :
    next.Windowed
      (dropTimes ++ List.replicate (next.broker.dropped - monitor.broker.dropped) monitor.now)
      (recordTimes ++ []) := by
  obtain ⟨more, now, health, window⟩ := missed
  rw [more, Nat.add_sub_cancel_left, List.append_nil]
  refine ⟨window dropTimes windowed.dropped, ?_, ?_, ?_, windowed.eventsOrder, ?_, ?_⟩
  · rw [health]
    exact windowed.events
  · rw [health]
    exact windowed.last
  · apply List.pairwise_append.mpr
    refine ⟨windowed.droppedOrder, List.pairwise_replicate.mpr (Or.inr le_rfl), ?_⟩
    intro earlier member t last
    rw [List.eq_of_mem_replicate last]
    exact windowed.droppedPast earlier member
  · rw [now]
    intro t member
    rcases List.mem_append.mp member with earlier | last
    · exact windowed.droppedPast t earlier
    · exact (List.eq_of_mem_replicate last).le
  · rw [now]
    exact windowed.eventsPast

theorem windowed_record (windowed : monitor.Windowed dropTimes recordTimes) :
    Windowed { monitor with health := monitor.health.recordEvent monitor.now } dropTimes
      (recordTimes ++ [monitor.now]) where
  dropped := windowed.dropped
  events := by
    rw [HealthState.recordEvent, ← pushBounded_rtake, ← windowed.events]
  last := List.getLast?_concat.symm
  droppedOrder := windowed.droppedOrder
  eventsOrder := Window.ordered_snoc windowed.eventsOrder windowed.eventsPast
  droppedPast := windowed.droppedPast
  eventsPast t member := by
    rcases List.mem_append.mp member with earlier | last
    · exact windowed.eventsPast t earlier
    · exact (List.mem_singleton.mp last).le

theorem windowed_step (windowed : monitor.Windowed dropTimes recordTimes)
    {action : MonitorAction} (forward : monitor.Forward action)
    (stepped : step monitor action = some next) :
    next.Windowed
      (dropTimes ++ List.replicate (next.broker.dropped - monitor.broker.dropped) monitor.now)
      (recordTimes ++ monitor.recordedAt action) := by
  cases action with
  | killSwitch payload =>
      simp only [step] at stepped
      split at stepped
      · rename_i answered
        cases stepped
        exact windowed.missed (missed_killSwitch answered)
      · cases stepped
        exact windowed.missed (missed_refl monitor)
  | tick =>
      cases stepped
      exact windowed.missed (monitor.missed_broadcastSystem _)
  | broadcast event =>
      cases stepped
      obtain ⟨_, missed⟩ := monitor.missed_broadcast event
      exact windowed.missed missed
  | subscribe _ | unsubscribe _ | heartbeat _ _ | read _ =>
      exact windowed.missed (missed_onBroker (by simp) stepped)
  | recordEvent =>
      cases stepped
      rw [Nat.sub_self, List.replicate_zero, List.append_nil]
      exact windowed_record windowed
  | watcher _ | database _ =>
      cases stepped
      rw [Nat.sub_self, List.replicate_zero, List.append_nil]
      change Windowed _ dropTimes (recordTimes ++ [])
      rw [List.append_nil]
      exact ⟨windowed.dropped, windowed.events, windowed.last, windowed.droppedOrder,
        windowed.eventsOrder, windowed.droppedPast, windowed.eventsPast⟩
  | clock now =>
      cases stepped
      rw [Nat.sub_self, List.replicate_zero, List.append_nil]
      change Windowed _ dropTimes (recordTimes ++ [])
      rw [List.append_nil]
      refine ⟨windowed.dropped, windowed.events, windowed.last, windowed.droppedOrder,
        windowed.eventsOrder, ?_, ?_⟩
      · intro t member
        exact (windowed.droppedPast t member).trans forward
      · intro t member
        exact (windowed.eventsPast t member).trans forward

theorem windowed_init (maxQueue : Nat) (startedAt now : Instant) :
    (init maxQueue { startedAt } now).Windowed [] [] where
  dropped := rfl
  events := rfl
  last := rfl
  droppedOrder := List.Pairwise.nil
  eventsOrder := List.Pairwise.nil
  droppedPast _ member := absurd member List.not_mem_nil
  eventsPast _ member := absurd member List.not_mem_nil

theorem windowed_run {maxQueue : Nat} {startedAt now : Instant} {actions : List MonitorAction}
    (forward : Along step (fun _ => Forward) (init maxQueue { startedAt } now) actions)
    (reached : exec step (init maxQueue { startedAt } now) actions = some monitor) :
    monitor.Windowed (drops (init maxQueue { startedAt } now) actions)
      (recordings (init maxQueue { startedAt } now) actions) := by
  refine exec_induction_along
    (motive := fun actions monitor =>
      monitor.Windowed (drops (init maxQueue { startedAt } now) actions)
        (recordings (init maxQueue { startedAt } now) actions))
    (windowed_init maxQueue startedAt now) ?_ forward reached
  intro actions middle action finish before windowed met stepped
  unfold drops recordings
  rw [observed_snoc before stepped, observed_snoc before stepped]
  exact windowed_step windowed met stepped

theorem Windowed.droppedEvents60s (windowed : monitor.Windowed dropTimes recordTimes) :
    monitor.stats.droppedEvents60s =
      min 10000 (dropTimes.countP fun t => monitor.now - t < 60 * 1000000) := by
  unfold stats
  dsimp only
  rw [windowed.dropped]
  refine Window.countP_rtake 10000 windowed.droppedOrder ?_
  intro earlier later order recent
  rw [decide_eq_true_eq] at recent ⊢
  exact (Int.sub_le_sub_left order monitor.now).trans_lt recent

theorem Windowed.eventsInWindow (windowed : monitor.Windowed dropTimes recordTimes)
    (seconds : Int) :
    monitor.health.eventsInWindow monitor.now seconds =
      min 5000 (recordTimes.countP fun t => monitor.now - seconds * 1000000 ≤ t) := by
  unfold HealthState.eventsInWindow
  rw [windowed.events]
  refine Window.countP_rtake 5000 windowed.eventsOrder ?_
  intro earlier later order recent
  rw [decide_eq_true_eq] at recent ⊢
  exact recent.trans order

theorem short_iff (delta : Int) : max 0 delta / 1000 ≤ 30000 ↔ delta < 30001 * 1000 := by
  omega

theorem Windowed.lag (windowed : monitor.Windowed dropTimes recordTimes) :
    monitor.lag ≤ 30000 ↔
      recordTimes = [] ∨ ∃ t ∈ recordTimes, monitor.now - t < 30001 * 1000 := by
  unfold Monitor.lag HealthState.streamLagMs
  rw [windowed.last]
  cases recordTimes using List.reverseRecOn with
  | nil => simp
  | append_singleton earlier last _ =>
      have latest : ∀ t ∈ earlier ++ [last], t ≤ last := by
        intro t member
        obtain ⟨-, -, before⟩ := List.pairwise_append.mp windowed.eventsOrder
        rcases List.mem_append.mp member with old | same
        · exact before t old last List.mem_cons_self
        · exact (List.mem_singleton.mp same).le
      have some : earlier ++ [last] ≠ [] := by simp
      rw [List.getLast?_concat]
      dsimp only
      constructor
      · intro short
        refine Or.inr ⟨last, by simp, ?_⟩
        exact (short_iff (monitor.now - last)).mp short
      · intro recent
        obtain ⟨t, member, close⟩ := recent.resolve_left some
        apply (short_iff (monitor.now - last)).mpr
        exact (Int.sub_le_sub_left (latest t member) monitor.now).trans_lt close

theorem status_eq_nominal_iff (monitor : Monitor) :
    monitor.status = .nominal ↔
      monitor.health.dbConnected = true ∧ monitor.health.watcherAlive = true ∧
        monitor.lag ≤ 30000 ∧ monitor.stats.droppedEvents60s ≤ 50 := by
  rw [← not_iff_not, ← ne_eq, status, HealthState.classify_ne_nominal_iff]
  simp only [not_and_or, Bool.not_eq_true, not_le]

/-- Where the clock is never set back, the windows are long enough: what is reported of the
last minute is what happened in it, up to their sizes, and the status is the one that all of
it calls for. -/
theorem reports_exact (maxQueue : Nat) (startedAt now : Instant)
    {actions : List MonitorAction}
    (forward : Along step (fun _ => Forward) (init maxQueue { startedAt } now) actions)
    (reached : exec step (init maxQueue { startedAt } now) actions = some monitor) :
    (monitor.stats.droppedEvents60s =
        min 10000 ((drops (init maxQueue { startedAt } now) actions).countP
          fun t => monitor.now - t < 60 * 1000000)) ∧
      (∀ seconds, monitor.health.eventsInWindow monitor.now seconds =
        min 5000 ((recordings (init maxQueue { startedAt } now) actions).countP
          fun t => monitor.now - seconds * 1000000 ≤ t)) ∧
      (monitor.status = .nominal ↔
        monitor.health.dbConnected = true ∧ monitor.health.watcherAlive = true ∧
          (recordings (init maxQueue { startedAt } now) actions = [] ∨
            ∃ t ∈ recordings (init maxQueue { startedAt } now) actions,
              monitor.now - t < 30001 * 1000) ∧
          ((drops (init maxQueue { startedAt } now) actions).countP
            fun t => monitor.now - t < 60 * 1000000) ≤ 50) := by
  have windowed := windowed_run forward reached
  refine ⟨windowed.droppedEvents60s, windowed.eventsInWindow, ?_⟩
  rw [status_eq_nominal_iff, windowed.lag, windowed.droppedEvents60s]
  have calm (count : Nat) : min 10000 count ≤ 50 ↔ count ≤ 50 := by omega
  rw [calm]

def lateMinute : List MonitorAction :=
  [.subscribe {}, .watcher true, .database true, .broadcast CohesionBuffer.validated,
    .broadcast CohesionBuffer.validated, .clock 31000000, .recordEvent, .clock 60000000]

theorem reports_exact_of_lateMinute :
    ∃ monitor, exec step (init 1 { startedAt := 0 } 0) lateMinute = some monitor ∧
      drops (init 1 { startedAt := 0 } 0) lateMinute = [0] ∧
      monitor.stats.droppedEvents60s = 0 ∧
      monitor.health.eventsInWindow monitor.now = 1 ∧ monitor.status = .nominal := by
  have forward : Along step (fun _ => Forward) (init 1 { startedAt := 0 } 0) lateMinute := by
    decide +kernel
  obtain ⟨monitor, reached, now, alive, connected⟩ : ∃ monitor,
      exec step (init 1 { startedAt := 0 } 0) lateMinute = some monitor ∧
        monitor.now = 60000000 ∧ monitor.health.watcherAlive = true ∧
          monitor.health.dbConnected = true := ⟨_, rfl, rfl, rfl, rfl⟩
  have dropped : drops (init 1 { startedAt := 0 } 0) lateMinute = [0] := rfl
  have recorded : recordings (init 1 { startedAt := 0 } 0) lateMinute = [31000000] := rfl
  obtain ⟨drops60s, events, nominal⟩ := reports_exact 1 0 0 forward reached
  rw [dropped, now] at drops60s nominal
  rw [recorded] at nominal
  refine ⟨monitor, reached, dropped, drops60s, ?_, nominal.mpr ?_⟩
  · rw [events, recorded, now]
    decide
  · exact ⟨connected, alive, Or.inr ⟨31000000, by simp, by decide⟩, by decide⟩

end Monitor

end OrderStream
