import OrderStream.Auth
import OrderStream.Theory.Transition

namespace OrderStream

open Transition

inductive QueueItem where
  | event (event : Event)
  | system (payload : Doc)
  | ping (t : Rat)

def QueueItem.event? : QueueItem → Option Event
  | .event emitted => some emitted
  | .system _ | .ping _ => none

/-- A `_Client`.  `read` is what its handler took from the queue so far. -/
structure Client where
  subscription : Subscription
  queue : List QueueItem := []
  dropped : Nat := 0
  read : List QueueItem := []

namespace Client

/-- `queue.full()`, where a size of zero is no bound. -/
def full (maxQueue : Nat) (client : Client) : Bool :=
  decide (0 < maxQueue ∧ maxQueue ≤ client.queue.length)

def put (client : Client) (item : QueueItem) : Client :=
  { client with queue := client.queue ++ [item] }

/-- `put_nowait`, with `QueueFull` passed over. -/
def tryPut (maxQueue : Nat) (item : QueueItem) (client : Client) : Client :=
  if client.full maxQueue then client else client.put item

def drop (client : Client) : Client := { client with dropped := client.dropped + 1 }

def take (client : Client) : Client :=
  { client with
    queue := client.queue.tail
    read := client.read ++ client.queue.head?.toList }

def delivered (client : Client) : List Event :=
  (client.read ++ client.queue).filterMap QueueItem.event?

end Client

/-- Clients are numbered as they subscribe, and outlive their registration in the hands
of their handlers; `registered` are the keys of `_clients`. -/
structure Broker where
  maxQueue : Nat
  clients : List Client := []
  registered : List Nat := []
  engaged : Bool := false

inductive BrokerAction where
  | subscribe (subscription : Subscription)
  | unsubscribe (id : Nat)
  | broadcast (event : Event)
  | broadcastSystem (payload : Doc)
  | heartbeat (id : Nat) (t : Rat)
  | read (id : Nat)
  | engage
  | release

def BrokerAction.joins : BrokerAction → Bool
  | .subscribe _ => true
  | _ => false

namespace Broker

def update (broker : Broker) (id : Nat) (change : Client → Client) : Broker :=
  { broker with clients := broker.clients.modify id change }

def unsubscribe (broker : Broker) (id : Nat) : Broker :=
  { broker with registered := broker.registered.erase id }

/-- One turn of the loop in `broadcast`. -/
def offer (event : Event) (broker : Broker) (id : Nat) : Broker :=
  match broker.clients[id]? with
  | none => broker
  | some client =>
      if !client.subscription.matches event then broker
      else if client.full broker.maxQueue then
        let broker := broker.update id Client.drop
        if client.dropped + 1 ≥ 5 then broker.unsubscribe id else broker
      else broker.update id fun client => client.put (.event event)

def broadcast (broker : Broker) (event : Event) : Broker :=
  if broker.engaged then broker else broker.registered.foldl (offer event) broker

def broadcastSystem (broker : Broker) (payload : Doc) : Broker :=
  broker.registered.foldl
    (fun broker id => broker.update id (Client.tryPut broker.maxQueue (.system payload)))
    broker

def step (broker : Broker) : BrokerAction → Option Broker
  | .subscribe subscription =>
      some { broker with
        clients := broker.clients ++ [{ subscription }]
        registered := broker.registered ++ [broker.clients.length] }
  | .unsubscribe id => some (broker.unsubscribe id)
  | .broadcast event => some (broker.broadcast event)
  | .broadcastSystem payload => some (broker.broadcastSystem payload)
  | .heartbeat id t => some (broker.update id (Client.tryPut broker.maxQueue (.ping t)))
  | .read id =>
      match broker.clients[id]? with
      | some client =>
          if client.queue.isEmpty then none else some (broker.update id Client.take)
      | none => none
  | .engage => some { broker with engaged := true }
  | .release => some { broker with engaged := false }

end Broker

/-! A client and its registration, apart from everybody else's. -/

structure Seat where
  client : Client
  registered : Bool

namespace Seat

def update (change : Client → Client) (seat : Seat) : Seat :=
  { seat with client := change seat.client }

def leave (seat : Seat) : Seat := { seat with registered := false }

def offer (maxQueue : Nat) (event : Event) (seat : Seat) : Seat :=
  if !seat.client.subscription.matches event then seat
  else if seat.client.full maxQueue then
    let seat' := seat.update Client.drop
    if seat.client.dropped + 1 ≥ 5 then seat'.leave else seat'
  else seat.update fun client => client.put (.event event)

def after (maxQueue : Nat) (engaged : Bool) (seat : Seat) : BrokerAction → Seat
  | .subscribe _ | .engage | .release => seat
  | .unsubscribe _ => seat.leave
  | .broadcast event =>
      if engaged then seat else if seat.registered then seat.offer maxQueue event else seat
  | .broadcastSystem payload =>
      if seat.registered then seat.update (Client.tryPut maxQueue (.system payload)) else seat
  | .heartbeat _ t => seat.update (Client.tryPut maxQueue (.ping t))
  | .read _ => seat.update Client.take

end Seat

def BrokerAction.own (id : Nat) : BrokerAction → Option BrokerAction
  | .subscribe _ => none
  | .unsubscribe other => if other = id then some (.unsubscribe 0) else none
  | .broadcast event => some (.broadcast event)
  | .broadcastSystem payload => some (.broadcastSystem payload)
  | .heartbeat other t => if other = id then some (.heartbeat 0 t) else none
  | .read other => if other = id then some (.read 0) else none
  | .engage => some .engage
  | .release => some .release

namespace Broker

def seat (broker : Broker) (id : Nat) : Option Seat :=
  broker.clients[id]?.map fun client => ⟨client, decide (id ∈ broker.registered)⟩

structure Numbered (broker : Broker) : Prop where
  distinct : broker.registered.Nodup
  known : ∀ id ∈ broker.registered, id < broker.clients.length

theorem numbered_empty (maxQueue : Nat) (engaged : Bool) : Numbered { maxQueue, engaged } where
  distinct := List.nodup_nil
  known _ member := absurd member List.not_mem_nil

structure Narrows (broker next : Broker) : Prop where
  maxQueue : next.maxQueue = broker.maxQueue
  engaged : next.engaged = broker.engaged
  clients : next.clients.length = broker.clients.length
  registered : next.registered.Sublist broker.registered

theorem Narrows.refl (broker : Broker) : Narrows broker broker :=
  ⟨rfl, rfl, rfl, .refl _⟩

theorem Narrows.trans {first second third : Broker} (left : Narrows first second)
    (right : Narrows second third) : Narrows first third where
  maxQueue := right.maxQueue.trans left.maxQueue
  engaged := right.engaged.trans left.engaged
  clients := right.clients.trans left.clients
  registered := right.registered.trans left.registered

theorem Narrows.numbered {broker next : Broker} (narrows : Narrows broker next)
    (numbered : broker.Numbered) : next.Numbered where
  distinct := numbered.distinct.sublist narrows.registered
  known id member := by
    rw [narrows.clients]
    exact numbered.known id (narrows.registered.subset member)

theorem narrows_update (broker : Broker) (id : Nat) (change : Client → Client) :
    Narrows broker (broker.update id change) :=
  ⟨rfl, rfl, List.length_modify .., .refl _⟩

theorem narrows_unsubscribe (broker : Broker) (id : Nat) :
    Narrows broker (broker.unsubscribe id) :=
  ⟨rfl, rfl, rfl, List.erase_sublist⟩

theorem narrows_offer (event : Event) (broker : Broker) (id : Nat) :
    Narrows broker (broker.offer event id) := by
  unfold offer
  split
  · exact .refl broker
  · dsimp only
    split
    · exact .refl broker
    · split
      · split
        · exact (narrows_update broker id _).trans (narrows_unsubscribe _ id)
        · exact narrows_update broker id _
      · exact narrows_update broker id _

theorem narrows_foldl {turn : Broker → Nat → Broker}
    (narrows : ∀ broker id, Narrows broker (turn broker id)) (ids : List Nat)
    (broker : Broker) : Narrows broker (ids.foldl turn broker) := by
  induction ids generalizing broker with
  | nil => exact .refl broker
  | cons id rest ih => exact (narrows broker id).trans (ih (turn broker id))

variable {broker next : Broker} {id : Nat}

theorem mem_registered {seat : Seat} (found : broker.seat id = some seat) :
    id ∈ broker.registered ↔ seat.registered = true := by
  obtain ⟨client, -, rfl⟩ := Option.map_eq_some_iff.mp found
  simp

theorem seat_of_known (known : id < broker.clients.length) :
    broker.seat id = some ⟨broker.clients[id], decide (id ∈ broker.registered)⟩ := by
  rw [seat, List.getElem?_eq_getElem known]
  rfl

theorem seat_update (broker : Broker) (id other : Nat) (change : Client → Client) :
    (broker.update other change).seat id =
      if other = id then (broker.seat id).map (Seat.update change) else broker.seat id := by
  unfold seat update
  dsimp only
  rw [List.getElem?_modify]
  split
  · cases broker.clients[id]? <;> rfl
  · cases broker.clients[id]? <;> rfl

theorem seat_unsubscribe (broker : Broker) (distinct : broker.registered.Nodup)
    (id other : Nat) :
    (broker.unsubscribe other).seat id =
      if other = id then (broker.seat id).map Seat.leave else broker.seat id := by
  unfold seat unsubscribe
  dsimp only
  split
  · rename_i own
    subst own
    cases broker.clients[other]? with
    | none => rfl
    | some client =>
        have gone : other ∉ broker.registered.erase other := distinct.not_mem_erase
        simp [Seat.leave, gone]
  · rename_i ne
    have kept : id ∈ broker.registered.erase other ↔ id ∈ broker.registered :=
      List.mem_erase_of_ne (Ne.symm ne)
    simp only [kept]

theorem seat_offer_of_ne (distinct : broker.registered.Nodup) (event : Event) {other : Nat}
    (ne : other ≠ id) : (broker.offer event other).seat id = broker.seat id := by
  unfold offer
  split
  · rfl
  · dsimp only
    split
    · rfl
    · split
      · split
        · rw [seat_unsubscribe (broker.update other Client.drop) distinct, if_neg ne,
            seat_update, if_neg ne]
        · rw [seat_update, if_neg ne]
      · rw [seat_update, if_neg ne]

theorem seat_offer_self (distinct : broker.registered.Nodup) (event : Event) (id : Nat) :
    (broker.offer event id).seat id =
      (broker.seat id).map (Seat.offer broker.maxQueue event) := by
  unfold offer
  cases found : broker.clients[id]? with
  | none =>
      rw [seat, found]
      rfl
  | some client =>
      have taken : broker.seat id = some ⟨client, decide (id ∈ broker.registered)⟩ := by
        rw [seat, found]
        rfl
      rw [taken, Option.map_some, Seat.offer]
      dsimp only
      split
      · exact taken
      · split
        · split
          · rw [seat_unsubscribe (broker.update id Client.drop) distinct, if_pos rfl,
              seat_update, if_pos rfl, taken]
            rfl
          · rw [seat_update, if_pos rfl, taken]
            rfl
        · rw [seat_update, if_pos rfl, taken]
          rfl

theorem seat_foldl {turn : Broker → Nat → Broker} {own : Seat → Seat}
    (narrows : ∀ broker id, Narrows broker (turn broker id))
    (others : ∀ broker other, broker.Numbered → other ≠ id →
      (turn broker other).seat id = broker.seat id)
    (self : ∀ middle : Broker, middle.Numbered → middle.maxQueue = broker.maxQueue →
      (turn middle id).seat id = (middle.seat id).map own)
    (numbered : broker.Numbered) {ids : List Nat} (distinct : ids.Nodup) :
    (ids.foldl turn broker).seat id =
      if id ∈ ids then (broker.seat id).map own else broker.seat id := by
  induction ids using List.reverseRecOn with
  | nil => rfl
  | append_singleton ids last ih =>
      have before := narrows_foldl narrows ids broker
      obtain ⟨earlier, -, fresh⟩ := List.nodup_append.mp distinct
      rw [List.foldl_append, List.foldl_cons, List.foldl_nil]
      by_cases turnOf : last = id
      · subst turnOf
        have absent : last ∉ ids := by
          intro member
          exact fresh last member last List.mem_cons_self rfl
        rw [self _ (before.numbered numbered) before.maxQueue, ih earlier, if_neg absent,
          if_pos (List.mem_append_right _ List.mem_cons_self)]
      · have same : id ∈ ids ++ [last] ↔ id ∈ ids := by
          simp [Ne.symm turnOf]
        rw [others _ last (before.numbered numbered) turnOf, ih earlier]
        simp only [same]

theorem seat_foldl_registered {turn : Broker → Nat → Broker} {own : Seat → Seat}
    (narrows : ∀ broker id, Narrows broker (turn broker id))
    (others : ∀ broker other, broker.Numbered → other ≠ id →
      (turn broker other).seat id = broker.seat id)
    (self : ∀ middle : Broker, middle.Numbered → middle.maxQueue = broker.maxQueue →
      (turn middle id).seat id = (middle.seat id).map own)
    (numbered : broker.Numbered) :
    (broker.registered.foldl turn broker).seat id =
      (broker.seat id).map fun seat => if seat.registered then own seat else seat := by
  rw [seat_foldl narrows others self numbered numbered.distinct, seat]
  cases broker.clients[id]? with
  | none => simp
  | some client =>
      simp only [Option.map_some, decide_eq_true_eq]
      split <;> rfl

theorem seat_broadcast (numbered : broker.Numbered) (event : Event) (id : Nat) :
    (broker.broadcast event).seat id = (broker.seat id).map fun seat =>
      seat.after broker.maxQueue broker.engaged (.broadcast event) := by
  unfold broadcast
  cases engaged : broker.engaged with
  | true => simp [Seat.after]
  | false =>
      refine seat_foldl_registered (narrows_offer event) ?_ ?_ numbered
      · intro middle other sound ne
        exact seat_offer_of_ne sound.distinct event ne
      · intro middle sound maxQueue
        rw [seat_offer_self sound.distinct, maxQueue]

theorem seat_broadcastSystem (numbered : broker.Numbered) (payload : Doc) (id : Nat) :
    (broker.broadcastSystem payload).seat id = (broker.seat id).map fun seat =>
      seat.after broker.maxQueue broker.engaged (.broadcastSystem payload) := by
  refine seat_foldl_registered (fun middle other => narrows_update middle other _) ?_ ?_ numbered
  · intro middle other _ ne
    rw [seat_update, if_neg ne]
  · intro middle _ maxQueue
    rw [seat_update, if_pos rfl, maxQueue]

theorem narrows_broadcast (broker : Broker) (event : Event) :
    Narrows broker (broker.broadcast event) := by
  unfold broadcast
  split
  · exact .refl broker
  · exact narrows_foldl (narrows_offer event) _ broker

theorem narrows_broadcastSystem (broker : Broker) (payload : Doc) :
    Narrows broker (broker.broadcastSystem payload) :=
  narrows_foldl (fun middle id => narrows_update middle id _) _ broker

inductive Step (broker : Broker) : BrokerAction → Broker → Prop where
  | subscribed {subscription : Subscription} :
      Step broker (.subscribe subscription)
        { broker with
          clients := broker.clients ++ [{ subscription }]
          registered := broker.registered ++ [broker.clients.length] }
  | unsubscribed {id : Nat} : Step broker (.unsubscribe id) (broker.unsubscribe id)
  | broadcast {event : Event} : Step broker (.broadcast event) (broker.broadcast event)
  | broadcastSystem {payload : Doc} :
      Step broker (.broadcastSystem payload) (broker.broadcastSystem payload)
  | heartbeat {id : Nat} {t : Rat} :
      Step broker (.heartbeat id t)
        (broker.update id (Client.tryPut broker.maxQueue (.ping t)))
  | read {id : Nat} {client : Client} : broker.clients[id]? = some client →
      client.queue ≠ [] → Step broker (.read id) (broker.update id Client.take)
  | engaged : Step broker .engage { broker with engaged := true }
  | released : Step broker .release { broker with engaged := false }

theorem step_cases {action : BrokerAction} (stepped : step broker action = some next) :
    Step broker action next := by
  cases action with
  | subscribe subscription =>
      cases stepped
      exact .subscribed
  | unsubscribe id =>
      cases stepped
      exact .unsubscribed
  | broadcast event =>
      cases stepped
      exact .broadcast
  | broadcastSystem payload =>
      cases stepped
      exact .broadcastSystem
  | heartbeat id t =>
      cases stepped
      exact .heartbeat
  | read id =>
      simp only [step] at stepped
      split at stepped
      · rename_i found
        split at stepped
        · cases stepped
        · rename_i some
          cases stepped
          exact .read found (by simpa using some)
      · cases stepped
  | engage =>
      cases stepped
      exact .engaged
  | release =>
      cases stepped
      exact .released

theorem numbered_step {action : BrokerAction} (numbered : broker.Numbered)
    (stepped : step broker action = some next) : next.Numbered := by
  cases step_cases stepped with
  | subscribed =>
      have fresh : broker.clients.length ∉ broker.registered := fun member =>
        Nat.lt_irrefl _ (numbered.known _ member)
      refine ⟨?_, ?_⟩
      · exact List.nodup_append.mpr ⟨numbered.distinct, List.nodup_singleton _, by
          intro id member other last same
          rw [same, List.mem_singleton.mp last] at member
          exact fresh member⟩
      · intro id member
        rw [List.length_append, List.length_singleton]
        rcases List.mem_append.mp member with earlier | last
        · exact Nat.lt_succ_of_lt (numbered.known id earlier)
        · rw [List.mem_singleton.mp last]
          exact Nat.lt_succ_self _
  | unsubscribed => exact (narrows_unsubscribe broker _).numbered numbered
  | broadcast => exact (narrows_broadcast broker _).numbered numbered
  | broadcastSystem => exact (narrows_broadcastSystem broker _).numbered numbered
  | heartbeat => exact (narrows_update broker _ _).numbered numbered
  | read _ _ => exact (narrows_update broker _ _).numbered numbered
  | engaged => exact ⟨numbered.distinct, numbered.known⟩
  | released => exact ⟨numbered.distinct, numbered.known⟩

theorem registered_sublist_step {action : BrokerAction}
    (stepped : step broker action = some next) (old : action.joins = false) :
    next.registered.Sublist broker.registered := by
  cases step_cases stepped with
  | subscribed => cases old
  | unsubscribed => exact (narrows_unsubscribe broker _).registered
  | broadcast => exact (narrows_broadcast broker _).registered
  | broadcastSystem => exact (narrows_broadcastSystem broker _).registered
  | heartbeat | read _ _ => exact (narrows_update broker _ _).registered
  | engaged | released => exact .refl _

theorem length_step_of_old {action : BrokerAction} (stepped : step broker action = some next)
    (old : action.joins = false) :
    next.clients.length = broker.clients.length := by
  cases step_cases stepped with
  | subscribed => cases old
  | unsubscribed => rfl
  | broadcast => exact (narrows_broadcast broker _).clients
  | broadcastSystem => exact (narrows_broadcastSystem broker _).clients
  | heartbeat | read _ _ => exact (narrows_update broker _ _).clients
  | engaged | released => rfl

theorem length_step_le {action : BrokerAction} (stepped : step broker action = some next) :
    broker.clients.length ≤ next.clients.length := by
  cases action with
  | subscribe subscription =>
      cases stepped
      rw [List.length_append]
      exact Nat.le_add_right _ _
  | _ => exact (length_step_of_old stepped rfl).ge

/-- What a step does to a seat is what its own action does. -/
theorem seat_step {action : BrokerAction} (numbered : broker.Numbered)
    (known : id < broker.clients.length) (stepped : step broker action = some next) :
    next.seat id = (broker.seat id).map fun seat =>
      match action.own id with
      | none => seat
      | some own => seat.after broker.maxQueue broker.engaged own := by
  cases step_cases stepped with
  | @subscribed subscription =>
      have other : id ≠ broker.clients.length := Nat.ne_of_lt known
      have same : ({ broker with
          clients := broker.clients ++ [{ subscription }]
          registered := broker.registered ++ [broker.clients.length] } : Broker).seat id =
            broker.seat id := by
        simp [seat, List.getElem?_append_left known, other]
      rw [same]
      exact Option.map_id'.symm
  | @unsubscribed other =>
      rw [seat_unsubscribe broker numbered.distinct, BrokerAction.own]
      split <;> simp [Seat.after]
  | broadcast => exact seat_broadcast numbered _ id
  | broadcastSystem => exact seat_broadcastSystem numbered _ id
  | heartbeat =>
      rw [seat_update, BrokerAction.own]
      split <;> simp [Seat.after]
  | read _ _ =>
      rw [seat_update, BrokerAction.own]
      split <;> simp [Seat.after]
  | engaged => exact Option.map_id'.symm
  | released => exact Option.map_id'.symm

end Broker

end OrderStream
