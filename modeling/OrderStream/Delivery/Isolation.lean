import OrderStream.Buffer.Cohesion
import OrderStream.Delivery.Broker

/-! What each client was sent, whoever else is connected. -/

namespace OrderStream

open Transition

def Seat.offered (maxQueue : Nat) (engaged : Bool) (seat : Seat) :
    BrokerAction → Option (Event × Bool)
  | .broadcast event =>
      if !engaged && seat.registered && seat.client.subscription.matches event then
        some (event, seat.client.full maxQueue)
      else none
  | _ => none

structure Accounted (maxQueue : Nat) (seat : Seat) (offers : List (Event × Bool)) :
    Prop where
  strikes : seat.registered = true → seat.client.dropped ≤ 4
  bounded : seat.client.queue.length ≤ maxQueue
  delivered : seat.client.delivered = (offers.filter fun offer => !offer.2).map Prod.fst
  missed : seat.client.dropped = (offers.filter fun offer => offer.2).length

namespace Client

variable (client : Client)

theorem delivered_put (item : QueueItem) :
    (client.put item).delivered = client.delivered ++ item.event?.toList := by
  rw [delivered, put, ← List.append_assoc, List.filterMap_append]
  cases found : item.event? <;> simp [delivered, found]

theorem delivered_take : client.take.delivered = client.delivered := by
  unfold delivered take
  cases client.queue with
  | nil => simp
  | cons item rest => simp

theorem delivered_tryPut (maxQueue : Nat) {item : QueueItem} (unheard : item.event? = none) :
    (client.tryPut maxQueue item).delivered = client.delivered := by
  unfold tryPut
  split
  · rfl
  · rw [delivered_put, unheard, Option.toList_none, List.append_nil]

theorem dropped_tryPut (maxQueue : Nat) (item : QueueItem) :
    (client.tryPut maxQueue item).dropped = client.dropped := by
  unfold tryPut
  split
  · rfl
  · rfl

theorem length_put {maxQueue : Nat} (positive : 1 ≤ maxQueue) (item : QueueItem)
    (space : ¬client.full maxQueue = true) :
    (client.put item).queue.length ≤ maxQueue := by
  simp only [full, decide_eq_true_eq, not_and, Nat.not_le] at space
  rw [put, List.length_append, List.length_singleton]
  exact space positive

theorem length_tryPut {maxQueue : Nat} (positive : 1 ≤ maxQueue) (item : QueueItem)
    (bounded : client.queue.length ≤ maxQueue) :
    (client.tryPut maxQueue item).queue.length ≤ maxQueue := by
  unfold tryPut
  split
  · exact bounded
  · exact client.length_put positive item ‹_›

end Client

section

variable {maxQueue : Nat} {seat : Seat} {offers : List (Event × Bool)}

theorem Accounted.tryPut (positive : 1 ≤ maxQueue) (accounted : Accounted maxQueue seat offers)
    {item : QueueItem} (unheard : item.event? = none) :
    Accounted maxQueue (seat.update (Client.tryPut maxQueue item)) offers := by
  have dropped := seat.client.dropped_tryPut maxQueue item
  constructor
  · intro registered
    exact dropped.trans_le (accounted.strikes registered)
  · exact seat.client.length_tryPut positive item accounted.bounded
  · exact (seat.client.delivered_tryPut maxQueue unheard).trans accounted.delivered
  · exact dropped.trans accounted.missed

theorem Accounted.take (accounted : Accounted maxQueue seat offers) :
    Accounted maxQueue (seat.update Client.take) offers where
  strikes := accounted.strikes
  bounded := by
    have bounded := accounted.bounded
    change seat.client.queue.tail.length ≤ maxQueue
    rw [List.length_tail]
    omega
  delivered := seat.client.delivered_take.trans accounted.delivered
  missed := accounted.missed

theorem Accounted.drop (accounted : Accounted maxQueue seat offers) (event : Event)
    {next : Seat} (client : next.client = seat.client.drop)
    (leaves : seat.client.dropped + 1 ≥ 5 → next.registered = false) :
    Accounted maxQueue next (offers ++ [(event, true)]) := by
  constructor
  · intro stays
    rw [client]
    change seat.client.dropped + 1 ≤ 4
    by_contra fifth
    rw [leaves (by omega)] at stays
    cases stays
  · rw [client]
    exact accounted.bounded
  · rw [client, List.filter_append]
    change seat.client.delivered = _
    rw [accounted.delivered]
    simp
  · rw [client, List.filter_append, List.length_append, ← accounted.missed]
    rfl

theorem Accounted.offer (positive : 1 ≤ maxQueue) (accounted : Accounted maxQueue seat offers)
    {event : Event} (matched : seat.client.subscription.matches event = true) :
    Accounted maxQueue (seat.offer maxQueue event)
      (offers ++ [(event, seat.client.full maxQueue)]) := by
  unfold Seat.offer
  rw [matched, Bool.not_true, if_neg Bool.false_ne_true]
  split
  · rename_i full
    rw [full]
    dsimp only
    split
    · exact accounted.drop event rfl fun _ => rfl
    · rename_i fewer
      exact accounted.drop event rfl fun fifth => absurd fifth fewer
  · rename_i space
    rw [Bool.eq_false_iff.mpr space]
    constructor
    · exact accounted.strikes
    · exact seat.client.length_put positive _ space
    · rw [List.filter_append, List.map_append, ← accounted.delivered]
      exact seat.client.delivered_put _
    · rw [List.filter_append, List.length_append, ← accounted.missed]
      rfl

theorem Accounted.after (positive : 1 ≤ maxQueue) (accounted : Accounted maxQueue seat offers)
    (engaged : Bool) (own : BrokerAction) :
    Accounted maxQueue (seat.after maxQueue engaged own)
      (offers ++ (seat.offered maxQueue engaged own).toList) := by
  cases own with
  | broadcast event =>
      simp only [Seat.offered, Seat.after]
      cases engaged with
      | true => simpa using accounted
      | false =>
          rw [if_neg Bool.false_ne_true]
          split
          · rename_i registered
            rw [registered]
            cases matched : seat.client.subscription.matches event with
            | true => exact accounted.offer positive matched
            | false =>
                rw [Seat.offer, matched]
                simpa using accounted
          · rename_i gone
            rw [Bool.eq_false_iff.mpr gone]
            simpa using accounted
  | broadcastSystem payload =>
      simp only [Seat.offered, Seat.after, Option.toList_none, List.append_nil]
      split
      · exact accounted.tryPut positive rfl
      · exact accounted
  | heartbeat _ t =>
      simp only [Seat.offered, Option.toList_none, List.append_nil]
      exact accounted.tryPut positive rfl
  | read _ =>
      simp only [Seat.offered, Option.toList_none, List.append_nil]
      exact accounted.take
  | unsubscribe _ =>
      simp only [Seat.offered, Option.toList_none, List.append_nil]
      exact ⟨fun stays => (Bool.false_ne_true stays).elim, accounted.bounded,
        accounted.delivered, accounted.missed⟩
  | subscribe _ | engage | release =>
      simp only [Seat.offered, Option.toList_none, List.append_nil]
      exact accounted

end

namespace Broker

variable {broker next lone : Broker} {id : Nat}

def offered (broker : Broker) (id : Nat) (action : BrokerAction) : Option (Event × Bool) :=
  (broker.seat id).bind fun seat => seat.offered broker.maxQueue broker.engaged action

/-- The events broadcast in a run while the client was registered and the kill-switch
disengaged that its subscription matches. -/
def offers (id : Nat) (broker : Broker) : List BrokerAction → List (Event × Bool)
  | [] => []
  | action :: rest =>
      match step broker action with
      | some next => (broker.offered id action).toList ++ offers id next rest
      | none => []

theorem offers_snoc {actions : List BrokerAction} {middle : Broker} {action : BrokerAction}
    (reached : exec step broker actions = some middle)
    (stepped : step middle action = some next) :
    offers id broker (actions ++ [action]) =
      offers id broker actions ++ (middle.offered id action).toList := by
  induction actions generalizing broker with
  | nil =>
      cases reached
      simp only [List.nil_append, offers, stepped, List.append_nil]
  | cons first rest ih =>
      obtain ⟨second, taken, onward⟩ := Option.bind_eq_some_iff.mp reached
      simp only [List.cons_append, offers, taken]
      rw [ih onward, List.append_assoc]

theorem maxQueue_step {action : BrokerAction} (stepped : step broker action = some next) :
    next.maxQueue = broker.maxQueue := by
  cases step_cases stepped with
  | broadcast => exact (narrows_broadcast broker _).maxQueue
  | broadcastSystem => exact (narrows_broadcastSystem broker _).maxQueue
  | _ => rfl

def engagedAfter (engaged : Bool) : BrokerAction → Bool
  | .engage => true
  | .release => false
  | _ => engaged

theorem engaged_step {action : BrokerAction} (stepped : step broker action = some next) :
    next.engaged = engagedAfter broker.engaged action := by
  cases step_cases stepped with
  | broadcast => exact (narrows_broadcast broker _).engaged
  | broadcastSystem => exact (narrows_broadcastSystem broker _).engaged
  | _ => rfl

theorem known_of_seat {seat : Seat} (found : broker.seat id = some seat) :
    id < broker.clients.length := by
  obtain ⟨client, present, -⟩ := Option.map_eq_some_iff.mp found
  exact (List.getElem?_eq_some_iff.mp present).1

def seatAfter (broker : Broker) (id : Nat) (action : BrokerAction) (seat : Seat) : Seat :=
  match action.own id with
  | none => seat
  | some own => seat.after broker.maxQueue broker.engaged own

theorem seat_after_step {action : BrokerAction} {seat : Seat} (numbered : broker.Numbered)
    (found : broker.seat id = some seat) (stepped : step broker action = some next) :
    next.seat id = some (broker.seatAfter id action seat) := by
  rw [seat_step numbered (known_of_seat found) stepped, found]
  rfl

theorem offered_eq {action : BrokerAction} {seat : Seat} (found : broker.seat id = some seat) :
    broker.offered id action =
      (action.own id).bind (seat.offered broker.maxQueue broker.engaged) := by
  rw [offered, found, Option.bind_some]
  cases action with
  | unsubscribe other | heartbeat other t | read other =>
      rw [BrokerAction.own]
      split <;> rfl
  | _ => rfl

theorem Accounted.seatAfter {maxQueue : Nat} (positive : 1 ≤ maxQueue)
    (same : broker.maxQueue = maxQueue) {seat : Seat} {offers : List (Event × Bool)}
    (accounted : Accounted maxQueue seat offers) (found : broker.seat id = some seat)
    (action : BrokerAction) :
    Accounted maxQueue (broker.seatAfter id action seat)
      (offers ++ (broker.offered id action).toList) := by
  subst same
  rw [offered_eq found, Broker.seatAfter]
  cases action.own id with
  | none => simpa using accounted
  | some own => exact accounted.after positive broker.engaged own

theorem subscription_offer (maxQueue : Nat) (event : Event) (seat : Seat) :
    (seat.offer maxQueue event).client.subscription = seat.client.subscription := by
  unfold Seat.offer
  split
  · rfl
  · split
    · dsimp only
      split <;> rfl
    · rfl

theorem subscription_tryPut (maxQueue : Nat) (item : QueueItem) (client : Client) :
    (client.tryPut maxQueue item).subscription = client.subscription := by
  unfold Client.tryPut
  split <;> rfl

theorem subscription_after (maxQueue : Nat) (engaged : Bool) (seat : Seat)
    (own : BrokerAction) :
    (seat.after maxQueue engaged own).client.subscription = seat.client.subscription := by
  cases own with
  | broadcast event =>
      simp only [Seat.after]
      split
      · rfl
      · split
        · exact subscription_offer maxQueue event seat
        · rfl
  | broadcastSystem payload =>
      simp only [Seat.after]
      split
      · exact subscription_tryPut maxQueue _ seat.client
      · rfl
  | heartbeat _ t => exact subscription_tryPut maxQueue _ seat.client
  | _ => rfl

theorem subscription_seatAfter (broker : Broker) (id : Nat) (action : BrokerAction)
    (seat : Seat) :
    (broker.seatAfter id action seat).client.subscription = seat.client.subscription := by
  unfold seatAfter
  split
  · rfl
  · exact subscription_after _ _ seat _

structure Booked (maxQueue : Nat) (id : Nat) (subscription : Subscription)
    (offers : List (Event × Bool)) (broker : Broker) : Prop where
  numbered : broker.Numbered
  limit : broker.maxQueue = maxQueue
  seat : ∃ seat, broker.seat id = some seat ∧ seat.client.subscription = subscription ∧
    Accounted maxQueue seat offers

theorem Booked.step {maxQueue : Nat} (positive : 1 ≤ maxQueue) {subscription : Subscription}
    {offers : List (Event × Bool)} (booked : Booked maxQueue id subscription offers broker)
    {action : BrokerAction} (stepped : step broker action = some next) :
    Booked maxQueue id subscription (offers ++ (broker.offered id action).toList) next := by
  obtain ⟨seat, found, own, accounted⟩ := booked.seat
  refine ⟨numbered_step booked.numbered stepped,
    (maxQueue_step stepped).trans booked.limit, _,
    seat_after_step booked.numbered found stepped, ?_, ?_⟩
  · rw [subscription_seatAfter, own]
  · exact Accounted.seatAfter positive booked.limit accounted found action

theorem booked_of_reached {maxQueue : Nat} (positive : 1 ≤ maxQueue)
    {subscription : Subscription} (booked : Booked maxQueue id subscription [] broker)
    {actions : List BrokerAction} (reached : exec Broker.step broker actions = some next) :
    Booked maxQueue id subscription (offers id broker actions) next := by
  refine exec_induction (motive := fun actions next =>
    Booked maxQueue id subscription (offers id broker actions) next) booked ?_ reached
  intro actions middle action finish before soFar stepped
  rw [offers_snoc before stepped]
  exact soFar.step positive stepped

structure Twin (id : Nat) (broker lone : Broker) : Prop where
  numbered : broker.Numbered
  loneNumbered : lone.Numbered
  limit : lone.maxQueue = broker.maxQueue
  engaged : lone.engaged = broker.engaged
  seat : ∃ seat, broker.seat id = some seat ∧ lone.seat 0 = some seat

theorem own_own {action own : BrokerAction} (mine : action.own id = some own) :
    own.own 0 = some own := by
  cases action with
  | subscribe subscription => cases mine
  | unsubscribe other | heartbeat other t | read other =>
      rw [BrokerAction.own] at mine
      split at mine
      · cases mine
        rfl
      · cases mine
  | _ =>
      cases mine
      rfl

theorem engagedAfter_own (id : Nat) (engaged : Bool) (action : BrokerAction) :
    engagedAfter engaged action = ((action.own id).map (engagedAfter engaged)).getD engaged := by
  cases action with
  | unsubscribe other | heartbeat other t | read other =>
      rw [BrokerAction.own]
      split <;> rfl
  | _ => rfl

/-- The client alone can do what it does among others. -/
theorem own_enabled {action own : BrokerAction} (stepped : step broker action = some next)
    (mine : action.own id = some own) (same : lone.seat 0 = broker.seat id) :
    ∃ after, Broker.step lone own = some after := by
  cases step_cases stepped with
  | subscribed => cases mine
  | unsubscribed | heartbeat =>
      rw [BrokerAction.own] at mine
      split at mine
      · cases mine
        exact ⟨_, rfl⟩
      · cases mine
  | broadcast | broadcastSystem | engaged | released =>
      cases mine
      exact ⟨_, rfl⟩
  | @read other client found nonempty =>
      rw [BrokerAction.own] at mine
      split at mine
      · rename_i equal
        subst equal
        cases mine
        rw [seat, seat, found] at same
        obtain ⟨twin, present, equal⟩ := Option.map_eq_some_iff.mp same
        have queues : twin = client := congrArg Seat.client equal
        subst queues
        refine ⟨lone.update 0 Client.take, ?_⟩
        simp only [Broker.step, present]
        rw [if_neg]
        simpa using nonempty
      · cases mine

theorem Twin.step (twin : Twin id broker lone) {action : BrokerAction}
    (stepped : step broker action = some next) :
    ∃ after, exec Broker.step lone (action.own id).toList = some after ∧
      Twin id next after := by
  obtain ⟨numbered, loneNumbered, limit, engaged, seat, found, loneFound⟩ := twin
  have limitNext := maxQueue_step stepped
  have engagedNext := engaged_step stepped
  have seatNext := seat_after_step numbered found stepped
  rw [engagedAfter_own id] at engagedNext
  unfold seatAfter at seatNext
  cases mine : action.own id with
  | none =>
      rw [mine] at engagedNext seatNext
      exact ⟨lone, rfl, numbered_step numbered stepped, loneNumbered,
        limit.trans limitNext.symm, engaged.trans engagedNext.symm, seat, seatNext, loneFound⟩
  | some own =>
      rw [mine] at engagedNext seatNext
      obtain ⟨after, taken⟩ := own_enabled stepped mine (loneFound.trans found.symm)
      have loneNext := seat_after_step loneNumbered loneFound taken
      rw [seatAfter, own_own mine, limit, engaged] at loneNext
      refine ⟨after, ?_, numbered_step numbered stepped, numbered_step loneNumbered taken,
        ?_, ?_, _, seatNext, loneNext⟩
      · rw [Option.toList_some, exec, taken]
        rfl
      · rw [maxQueue_step taken, limit, limitNext]
      · rw [engaged_step taken, engaged, engagedNext]
        rfl

theorem twin_of_reached (twin : Twin id broker lone) {actions : List BrokerAction}
    (reached : exec Broker.step broker actions = some next) :
    ∃ after, exec Broker.step lone (actions.filterMap (BrokerAction.own id)) = some after ∧
      Twin id next after := by
  refine exec_induction (motive := fun actions next =>
    ∃ after, exec Broker.step lone (actions.filterMap (BrokerAction.own id)) = some after ∧
      Twin id next after) ⟨lone, rfl, twin⟩ ?_ reached
  rintro actions middle action finish _ ⟨soFar, arrived, twins⟩ stepped
  obtain ⟨after, taken, onward⟩ := twins.step stepped
  refine ⟨after, ?_, onward⟩
  rw [List.filterMap_append, exec_append, arrived, Option.bind_some]
  cases own : action.own id with
  | none =>
      rw [own] at taken
      rw [List.filterMap_cons_none own]
      exact taken
  | some mine =>
      rw [own] at taken
      rw [List.filterMap_cons_some own]
      exact taken

theorem numbered_of_reached {maxQueue : Nat} {engaged : Bool} {actions : List BrokerAction}
    (reached : exec Broker.step { maxQueue, engaged } actions = some broker) :
    broker.Numbered ∧ broker.maxQueue = maxQueue := by
  refine exec_invariant (motive := fun broker : Broker =>
    broker.Numbered ∧ broker.maxQueue = maxQueue) ⟨numbered_empty maxQueue engaged, rfl⟩ ?_
    reached
  rintro middle action finish ⟨numbered, limit⟩ stepped
  exact ⟨numbered_step numbered stepped, (maxQueue_step stepped).trans limit⟩

theorem seat_subscribed {subscription : Subscription}
    (stepped : step broker (.subscribe subscription) = some next) :
    next.seat broker.clients.length = some ⟨{ subscription }, true⟩ := by
  cases stepped
  simp [seat]

/-- The books of every client agree with the run, and the client has what it would have
had where the others never connected. -/
theorem broker_accounts {maxQueue : Nat} (positive : 1 ≤ maxQueue)
    {before after : List BrokerAction} {subscription : Subscription} {middle : Broker}
    (arrived : exec step { maxQueue } before = some middle)
    (reached : exec step middle (.subscribe subscription :: after) = some broker) :
    ∃ seat, broker.seat middle.clients.length = some seat ∧
      seat.client.subscription = subscription ∧
      Accounted maxQueue seat
        (offers middle.clients.length middle (.subscribe subscription :: after)) ∧
      ∃ lone, exec step { maxQueue, engaged := middle.engaged }
          (.subscribe subscription ::
            after.filterMap (BrokerAction.own middle.clients.length)) = some lone ∧
        lone.seat 0 = some seat := by
  obtain ⟨first, entered, onward⟩ := Option.bind_eq_some_iff.mp reached
  obtain ⟨numbered, limit⟩ := numbered_of_reached arrived
  have seated := seat_subscribed entered
  have firstNumbered := numbered_step numbered entered
  have firstLimit := (maxQueue_step entered).trans limit
  have booked : Booked maxQueue middle.clients.length subscription [] first := by
    refine ⟨firstNumbered, firstLimit, _, seated, rfl, ?_⟩
    exact ⟨fun _ => Nat.zero_le _, Nat.zero_le _, rfl, rfl⟩
  let empty : Broker := { maxQueue, engaged := middle.engaged }
  obtain ⟨alone, aloneEntered⟩ : ∃ alone, step empty (.subscribe subscription) = some alone :=
    ⟨_, rfl⟩
  have aloneNumbered : alone.Numbered :=
    numbered_step (numbered_of_reached (exec_nil empty)).1 aloneEntered
  have twin : Twin middle.clients.length first alone := by
    refine ⟨firstNumbered, aloneNumbered, ?_, ?_, _, seated, seat_subscribed aloneEntered⟩
    · rw [maxQueue_step aloneEntered, firstLimit]
    · rw [engaged_step aloneEntered, engaged_step entered]
  obtain ⟨seat, found, own, accounted⟩ := (booked_of_reached positive booked onward).seat
  obtain ⟨lone, loneReached, twins⟩ := twin_of_reached twin onward
  obtain ⟨seat', found', loneFound⟩ := twins.seat
  cases found.symm.trans found'
  have offersFirst : offers middle.clients.length middle (.subscribe subscription :: after) =
      offers middle.clients.length first after := by
    have silent : middle.offered middle.clients.length (.subscribe subscription) = none := by
      rw [offered]
      cases middle.seat middle.clients.length <;> rfl
    simp only [offers, entered, silent, Option.toList_none, List.nil_append]
  refine ⟨seat, found, own, offersFirst ▸ accounted, lone, ?_, loneFound⟩
  rw [exec, aloneEntered]
  exact loneReached

def lateReader : List BrokerAction :=
  [.subscribe {}, .broadcast CohesionBuffer.validated, .broadcast CohesionBuffer.validated,
    .read 1]

theorem broker_accounts_late_reader :
    ∃ broker seat,
      exec step { maxQueue := 1 } (.subscribe {} :: lateReader) = some broker ∧
        broker.seat 1 = some seat ∧ seat.client.dropped = 1 ∧
        Accounted 1 seat [(CohesionBuffer.validated, false), (CohesionBuffer.validated, true)] := by
  have arrived : exec step { maxQueue := 1 } [.subscribe {}] =
      some { maxQueue := 1, clients := [{ subscription := {} }], registered := [0] } := rfl
  obtain ⟨broker, reached⟩ : ∃ broker, exec step
      { maxQueue := 1, clients := [{ subscription := {} }], registered := [0] } lateReader =
        some broker := ⟨_, rfl⟩
  obtain ⟨seat, found, -, accounted, -⟩ := broker_accounts (Nat.le_refl 1) arrived reached
  have dropped := accounted.missed
  exact ⟨broker, seat, exec_append_some.mpr ⟨_, arrived, reached⟩, found, dropped, accounted⟩

end Broker

end OrderStream
