import OrderStream.Delivery.Broker

/-! The `/ws` handler from `subscribe` to its end, and what it leaves in the table of
clients. -/

namespace OrderStream

open Transition

/-- Where a `/ws` handler waits.  It is `closing` after `unsubscribe`. -/
inductive SocketPoint where
  | hello
  | queue
  | sending (item : QueueItem)
  | closing
  | ended

def SocketPoint.running : SocketPoint → Bool
  | .hello | .queue | .sending _ => true
  | .closing | .ended => false

/-- Each client has its handler's place here; `none` is a handler of `/stream`. -/
structure Sockets where
  broker : Broker
  points : List (Option SocketPoint) := []

/-- `helloRaises`, `getRaises` and `sendRaises` are the awaits that raise, whatever they
raise.  `elsewhere` is everything but the `/ws` handlers. -/
inductive SocketAction where
  | connect (subscription : Subscription)
  | helloSent (id : Nat)
  | helloRaises (id : Nat)
  | got (id : Nat)
  | timeout (id : Nat)
  | getRaises (id : Nat)
  | sent (id : Nat)
  | sendRaises (id : Nat)
  | closed (id : Nat)
  | elsewhere (action : BrokerAction)

def QueueItem.isPing : QueueItem → Bool
  | .event _ => false
  | .system payload => (payload.get "__type__").pyEq (.str "ping")
  | .ping _ => true

def BrokerAction.client? : BrokerAction → Option Nat
  | .unsubscribe id | .heartbeat id _ | .read id => some id
  | .subscribe _ | .broadcast _ | .broadcastSystem _ | .engage | .release => none

namespace Sockets

def move (sockets : Sockets) (id : Nat) (point : SocketPoint) : Sockets :=
  { sockets with points := sockets.points.set id (some point) }

/-- The `finally` block. -/
def leave (sockets : Sockets) (id : Nat) : Sockets :=
  { sockets with broker := sockets.broker.unsubscribe id }.move id .closing

def onBroker (sockets : Sockets) (action : BrokerAction) : Option Sockets :=
  (Broker.step sockets.broker action).map fun broker => { sockets with broker }

def join (sockets : Sockets) (subscription : Subscription) (point : Option SocketPoint) :
    Option Sockets :=
  (sockets.onBroker (.subscribe subscription)).map fun sockets =>
    { sockets with points := sockets.points ++ [point] }

def step (sockets : Sockets) : SocketAction → Option Sockets
  | .connect subscription => sockets.join subscription (some .hello)
  | .helloSent id =>
      match sockets.points[id]? with
      | some (some .hello) => some (sockets.move id .queue)
      | _ => none
  | .helloRaises id =>
      match sockets.points[id]? with
      -- the hello is sent before the `try`
      | some (some .hello) => some (sockets.move id .ended)
      | _ => none
  | .got id =>
      match sockets.points[id]?, sockets.broker.clients[id]?.bind (·.queue.head?) with
      | some (some .queue), some item =>
          (sockets.onBroker (.read id)).map fun sockets =>
            sockets.move id (if item.isPing then .queue else .sending item)
      | _, _ => none
  | .timeout id =>
      match sockets.points[id]? with
      | some (some .queue) => some sockets
      | _ => none
  | .getRaises id =>
      match sockets.points[id]? with
      | some (some .queue) => some (sockets.leave id)
      | _ => none
  | .sent id =>
      match sockets.points[id]? with
      | some (some (.sending _)) => some (sockets.move id .queue)
      | _ => none
  | .sendRaises id =>
      match sockets.points[id]? with
      | some (some (.sending _)) => some (sockets.leave id)
      | _ => none
  | .closed id =>
      match sockets.points[id]? with
      | some (some .closing) => some (sockets.move id .ended)
      | _ => none
  | .elsewhere (.subscribe subscription) => sockets.join subscription none
  | .elsewhere action =>
      if ∀ id ∈ action.client?, sockets.points[id]? matches some none then
        sockets.onBroker action
      else
        none

inductive Step (sockets : Sockets) : SocketAction → Sockets → Prop where
  | connected {subscription : Subscription} {broker : Broker} :
      Broker.step sockets.broker (.subscribe subscription) = some broker →
        Step sockets (.connect subscription)
          { broker, points := sockets.points ++ [some .hello] }
  | greeted {id : Nat} : sockets.points[id]? = some (some .hello) →
      Step sockets (.helloSent id) (sockets.move id .queue)
  | unheard {id : Nat} : sockets.points[id]? = some (some .hello) →
      Step sockets (.helloRaises id) (sockets.move id .ended)
  | took {id : Nat} {broker : Broker} {item : QueueItem} :
      sockets.points[id]? = some (some .queue) →
      Broker.step sockets.broker (.read id) = some broker →
        Step sockets (.got id)
          ({ sockets with broker }.move id (if item.isPing then .queue else .sending item))
  | timedOut {id : Nat} : Step sockets (.timeout id) sockets
  | sent {id : Nat} {item : QueueItem} : sockets.points[id]? = some (some (.sending item)) →
      Step sockets (.sent id) (sockets.move id .queue)
  | failed {id : Nat} {action : SocketAction} : id < sockets.points.length →
      action = .getRaises id ∨ action = .sendRaises id →
        Step sockets action (sockets.leave id)
  | closed {id : Nat} : sockets.points[id]? = some (some .closing) →
      Step sockets (.closed id) (sockets.move id .ended)
  | joined {subscription : Subscription} {broker : Broker} :
      Broker.step sockets.broker (.subscribe subscription) = some broker →
        Step sockets (.elsewhere (.subscribe subscription))
          { broker, points := sockets.points ++ [none] }
  | elsewhere {action : BrokerAction} {broker : Broker} :
      action.joins = false → Broker.step sockets.broker action = some broker →
        Step sockets (.elsewhere action) { sockets with broker }

variable {sockets next : Sockets} {id : Nat}

theorem join_eq_some {subscription : Subscription} {point : Option SocketPoint}
    (moved : sockets.join subscription point = some next) :
    ∃ broker, Broker.step sockets.broker (.subscribe subscription) = some broker ∧
      next = { broker, points := sockets.points ++ [point] } := by
  cases moved
  exact ⟨_, rfl, rfl⟩

theorem step_cases {action : SocketAction} (stepped : step sockets action = some next) :
    Step sockets action next := by
  cases action with
  | connect subscription =>
      obtain ⟨broker, subscribed, rfl⟩ := join_eq_some stepped
      exact .connected subscribed
  | helloSent id =>
      simp only [step] at stepped
      split at stepped
      · cases stepped
        exact .greeted ‹_›
      · cases stepped
  | helloRaises id =>
      simp only [step] at stepped
      split at stepped
      · cases stepped
        exact .unheard ‹_›
      · cases stepped
  | got id =>
      simp only [step] at stepped
      split at stepped
      · obtain ⟨middle, moved, rfl⟩ := Option.map_eq_some_iff.mp stepped
        obtain ⟨broker, read, rfl⟩ := Option.map_eq_some_iff.mp moved
        exact .took ‹_› read
      · cases stepped
  | timeout id =>
      simp only [step] at stepped
      split at stepped
      · cases stepped
        exact .timedOut
      · cases stepped
  | getRaises id =>
      simp only [step] at stepped
      split at stepped
      · rename_i waiting
        cases stepped
        exact .failed (List.getElem?_eq_some_iff.mp waiting).1 (Or.inl rfl)
      · cases stepped
  | sent id =>
      simp only [step] at stepped
      split at stepped
      · cases stepped
        exact .sent ‹_›
      · cases stepped
  | sendRaises id =>
      simp only [step] at stepped
      split at stepped
      · rename_i sending
        cases stepped
        exact .failed (List.getElem?_eq_some_iff.mp sending).1 (Or.inr rfl)
      · cases stepped
  | closed id =>
      simp only [step] at stepped
      split at stepped
      · cases stepped
        exact .closed ‹_›
      · cases stepped
  | elsewhere action =>
      cases action with
      | subscribe subscription =>
          obtain ⟨broker, subscribed, rfl⟩ := join_eq_some stepped
          exact .joined subscribed
      | _ =>
          simp only [step] at stepped
          split at stepped
          · obtain ⟨broker, taken, rfl⟩ := Option.map_eq_some_iff.mp stepped
            exact .elsewhere rfl taken
          · cases stepped

def NotAt (sockets : Sockets) (point : SocketPoint) (id : Nat) : Prop :=
  id ∈ sockets.broker.registered → sockets.points[id]? ≠ some (some point)

theorem notAt_move {other : Nat} (inside : other < sockets.points.length)
    (point target : SocketPoint) :
    (sockets.move other target).NotAt point id ↔
      if other = id then target = point → id ∉ sockets.broker.registered
      else sockets.NotAt point id := by
  unfold NotAt move
  dsimp only
  rw [List.getElem?_set]
  split
  · rename_i own
    subst own
    simp only [ne_eq, Option.some.injEq]
    exact imp_not_comm
  · rfl

theorem NotAt.move {point target : SocketPoint} {other : Nat} (notAt : sockets.NotAt point id)
    (inside : other < sockets.points.length) (ne : target ≠ point) :
    (sockets.move other target).NotAt point id := by
  rw [notAt_move inside]
  split
  · exact fun same => absurd same ne
  · exact notAt

theorem NotAt.narrow {point : SocketPoint} {broker : Broker} (notAt : sockets.NotAt point id)
    (fewer : broker.registered.Sublist sockets.broker.registered) :
    { sockets with broker }.NotAt point id :=
  fun registered => notAt (fewer.subset registered)

structure Sound (sockets : Sockets) : Prop where
  numbered : sockets.broker.Numbered
  points : sockets.points.length = sockets.broker.clients.length
  closing : ∀ id, sockets.NotAt .closing id

theorem NotAt.join {point : SocketPoint} (sound : sockets.Sound)
    (notAt : sockets.NotAt point id) {subscription : Subscription} {broker : Broker}
    (subscribed : Broker.step sockets.broker (.subscribe subscription) = some broker)
    {fresh : Option SocketPoint} (other : fresh ≠ some point) :
    NotAt { broker, points := sockets.points ++ [fresh] } point id := by
  cases subscribed
  intro registered
  rcases List.mem_append.mp registered with earlier | last
  · have inside : id < sockets.points.length := by
      rw [sound.points]
      exact sound.numbered.known id earlier
    rw [List.getElem?_append_left inside]
    exact notAt earlier
  · rw [List.mem_singleton.mp last, ← sound.points, List.getElem?_concat_length]
    simpa using other

theorem notAt_step {point : SocketPoint} (past : point.running = false)
    (sound : sockets.Sound) (notAt : sockets.NotAt point id) {action : SocketAction}
    (stepped : step sockets action = some next) :
    next.NotAt point id ↔
      (point = .ended → action = .helloRaises id → id ∉ sockets.broker.registered) := by
  have running {target : SocketPoint} (live : target.running = true) : target ≠ point := by
    rintro rfl
    rw [past] at live
    cases live
  cases step_cases stepped with
  | connected subscribed =>
      refine iff_of_true (notAt.join sound subscribed ?_) (by simp)
      exact fun same => running rfl (Option.some.inj same)
  | greeted greeting =>
      refine iff_of_true ?_ (by simp)
      exact notAt.move (List.getElem?_eq_some_iff.mp greeting).1 (running rfl)
  | @unheard other greeting =>
      rw [notAt_move (List.getElem?_eq_some_iff.mp greeting).1]
      split
      · rename_i own
        subst own
        exact ⟨fun gone ended _ => gone ended.symm, fun gone ended => gone ended.symm rfl⟩
      · rename_i ne
        refine iff_of_true notAt ?_
        intro _ same
        exact absurd (SocketAction.helloRaises.inj same) ne
  | @took other broker item waiting read =>
      refine iff_of_true ?_ (by simp)
      refine (notAt.narrow (Broker.registered_sublist_step read rfl)).move
        (List.getElem?_eq_some_iff.mp waiting).1 (running ?_)
      split
      · rfl
      · rfl
  | timedOut => exact iff_of_true notAt (by simp)
  | sent sending =>
      refine iff_of_true ?_ (by simp)
      exact notAt.move (List.getElem?_eq_some_iff.mp sending).1 (running rfl)
  | @failed other _ inside raised =>
      -- `finally` takes the client out of the table
      refine iff_of_true ?_ ?_
      · have within : other <
            { sockets with broker := sockets.broker.unsubscribe other }.points.length := inside
        rw [leave, notAt_move within]
        split
        · rename_i own
          subst own
          exact fun _ => sound.numbered.distinct.not_mem_erase
        · exact notAt.narrow List.erase_sublist
      · rintro _ rfl
        rcases raised with same | same
        · cases same
        · cases same
  | @closed other closing =>
      refine iff_of_true ?_ (by simp)
      rw [notAt_move (List.getElem?_eq_some_iff.mp closing).1]
      split
      · rename_i own
        subst own
        -- so that it is out by the time the handler ends
        exact fun _ registered => sound.closing other registered closing
      · exact notAt
  | joined subscribed => exact iff_of_true (notAt.join sound subscribed (by simp)) (by simp)
  | elsewhere old taken =>
      exact iff_of_true (notAt.narrow (Broker.registered_sublist_step taken old)) (by simp)

theorem paired_step (sound : sockets.Sound) {action : SocketAction}
    (stepped : step sockets action = some next) :
    next.broker.Numbered ∧ next.points.length = next.broker.clients.length := by
  obtain ⟨numbered, points, -⟩ := sound
  cases step_cases stepped with
  | connected subscribed | joined subscribed =>
      refine ⟨Broker.numbered_step numbered subscribed, ?_⟩
      cases subscribed
      rw [List.length_append, List.length_append, points]
      rfl
  | greeted _ | unheard _ | sent _ | closed _ =>
      exact ⟨numbered, (List.length_set ..).trans points⟩
  | took _ read =>
      refine ⟨Broker.numbered_step numbered read, (List.length_set ..).trans ?_⟩
      exact points.trans (Broker.length_step_of_old read rfl).symm
  | timedOut => exact ⟨numbered, points⟩
  | failed _ _ =>
      exact ⟨(Broker.narrows_unsubscribe sockets.broker _).numbered numbered,
        (List.length_set ..).trans points⟩
  | elsewhere old taken =>
      exact ⟨Broker.numbered_step numbered taken,
        points.trans (Broker.length_step_of_old taken old).symm⟩

theorem sound_step (sound : sockets.Sound) {action : SocketAction}
    (stepped : step sockets action = some next) : next.Sound where
  numbered := (paired_step sound stepped).1
  points := (paired_step sound stepped).2
  closing id := (notAt_step rfl sound (sound.closing id) stepped).mpr (by simp)

theorem sound_init (maxQueue : Nat) : Sound { broker := { maxQueue } } where
  numbered := Broker.numbered_empty maxQueue false
  points := rfl
  closing _ member := absurd member List.not_mem_nil

/-- In every state of a run the client of this handler is out of the table once the
handler has ended, iff its hello did not raise while the client was in the table. -/
theorem ended_unregistered_iff (maxQueue id : Nat) {actions : List SocketAction}
    {sockets : Sockets}
    (reached : exec step { broker := { maxQueue } } actions = some sockets) :
    (∀ before after state, actions = before ++ after →
        exec step { broker := { maxQueue } } before = some state → state.NotAt .ended id) ↔
      Along step (fun _ state action =>
        action = .helloRaises id → id ∉ state.broker.registered)
        { broker := { maxQueue } } actions := by
  refine always_iff_along (fun sockets => sockets.Sound ∧ sockets.NotAt .ended id)
    ⟨sound_init maxQueue, fun member => absurd member List.not_mem_nil⟩
    (fun member => absurd member List.not_mem_nil) ?_ reached
  rintro state action finish ⟨sound, notAt⟩ stepped
  have kept := notAt_step rfl sound notAt stepped
  rw [forall_prop_of_true rfl] at kept
  exact ⟨kept, fun safe => ⟨sound_step sound stepped, kept.mpr safe⟩⟩

/-- No client of a `/ws` handler that has ended is in the table. -/
def OnlyRunning (sockets : Sockets) : Prop :=
  ∀ id ∈ sockets.broker.registered, sockets.points[id]? ≠ some (some .ended)

/-- No hello raises but for a client that was evicted before. -/
def HelloSafe (sockets : Sockets) : SocketAction → Prop
  | .helloRaises id => id ∉ sockets.broker.registered
  | _ => True

instance (sockets : Sockets) (action : SocketAction) : Decidable (sockets.HelloSafe action) :=
  match action with
  | .helloRaises id => inferInstanceAs (Decidable (id ∉ sockets.broker.registered))
  | .connect _ | .helloSent _ | .got _ | .timeout _ | .getRaises _ | .sent _ | .sendRaises _
  | .closed _ | .elsewhere _ => isTrue trivial

/-- Over any number of connections and failures the table holds only clients whose handler
still runs, iff no hello raises while its client is in the table. -/
theorem only_running_iff (maxQueue : Nat) {actions : List SocketAction} {sockets : Sockets}
    (reached : exec step { broker := { maxQueue } } actions = some sockets) :
    (∀ before after state, actions = before ++ after →
        exec step { broker := { maxQueue } } before = some state → state.OnlyRunning) ↔
      Along step (fun _ => HelloSafe) { broker := { maxQueue } } actions := by
  constructor
  · intro running before action after split state arrived
    cases action with
    | helloRaises id =>
        refine (ended_unregistered_iff maxQueue id reached).mp ?_ before _ after split state
          arrived rfl
        intro before after state split arrived registered
        exact running before after state split arrived id registered
    | _ => trivial
  · intro safe before after state split arrived id registered
    refine (ended_unregistered_iff maxQueue id reached).mpr ?_ before after state split arrived
      registered
    rintro before action after split state arrived rfl
    exact safe before _ after split state arrived

def failingRun : List SocketAction :=
  [.connect {}, .helloSent 0, .connect {}, .helloSent 1, .elsewhere (.broadcastSystem ∅),
    .got 0, .sendRaises 0, .getRaises 1, .closed 0, .closed 1]

theorem only_running_after_failures :
    ∃ sockets, exec step { broker := { maxQueue := 200 } } failingRun = some sockets ∧
      sockets.OnlyRunning := by
  obtain ⟨sockets, reached⟩ :
      ∃ sockets, exec step { broker := { maxQueue := 200 } } failingRun = some sockets :=
    ⟨_, rfl⟩
  exact ⟨sockets, reached, (only_running_iff 200 reached).mpr (by decide +kernel)
    failingRun [] sockets (List.append_nil _).symm reached⟩

theorem unheard_hello_leaks :
    ∃ sockets, exec step { broker := { maxQueue := 200 } } [.connect {}, .helloRaises 0] =
        some sockets ∧
      sockets.points = [some .ended] ∧ sockets.broker.registered = [0] :=
  ⟨_, rfl, rfl, rfl⟩

end Sockets

end OrderStream
