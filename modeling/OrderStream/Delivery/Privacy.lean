import OrderStream.Buffer.Conservation
import OrderStream.Delivery.Isolation
import OrderStream.Watcher.Process

/-! What the filter by customer keeps from the clients of other customers. -/

namespace OrderStream

open Transition

/-- The watcher's cache, the arguments of the `append` it awaits, the buffer and the
broker. -/
structure Fanout where
  cache : Orders
  appending : Option AppendArgs := none
  buffer : CohesionBuffer := {}
  broker : Broker

inductive FanoutAction where
  | warm (cache : Orders)
  | reconcile (orderId : String)
  | process (change : Change) (correlationId : String)
  | appended (stamp : Stamp)
  | failed
  | expire (timer : Nat)
  | flushAll
  | drain (flush : Nat)
  | broker (action : BrokerAction)

namespace Fanout

def advance (windows : Windows) (fanout : Fanout) (action : BufferAction) : Option Fanout :=
  (CohesionBuffer.step windows fanout.buffer action).map fun buffer =>
    { fanout with
      buffer
      broker := (buffer.emitted.drop fanout.buffer.emitted.length).foldl
        (fun broker emission => broker.broadcast emission.event) fanout.broker }

def step (windows : Windows) (fanout : Fanout) : FanoutAction → Option Fanout
  | .warm cache =>
      match fanout.appending with
      | none => some { fanout with cache }
      | some _ => none
  | .reconcile orderId =>
      match fanout.appending, Watcher.reconciliationArgs fanout.cache orderId with
      | none, some args => some { fanout with appending := some args }
      | _, _ => none
  | .process change correlationId =>
      match fanout.appending, Watcher.prepare fanout.cache change correlationId with
      | none, .ok appending => some { fanout with appending }
      | none, .error _ => some fanout
      | some _, _ => none
  | .appended stamp =>
      match fanout.appending with
      | some args =>
          { fanout with
            cache := Watcher.remember fanout.cache args
            appending := none }.advance windows (.add (stamp.draft args).event)
      | none => none
  | .failed =>
      match fanout.appending with
      | some _ => some { fanout with appending := none }
      | none => none
  | .expire timer => fanout.advance windows (.expire timer)
  | .flushAll => fanout.advance windows .flushAll
  | .drain flush => fanout.advance windows (.drain flush)
  -- only the buffer calls `broadcast`
  | .broker (.broadcast _) => none
  | .broker action =>
      (Broker.step fanout.broker action).map fun broker => { fanout with broker }

def bufferAction? (fanout : Fanout) : FanoutAction → Option BufferAction
  | .appended stamp => fanout.appending.map fun args => .add (stamp.draft args).event
  | .expire timer => some (.expire timer)
  | .flushAll => some .flushAll
  | .drain flush => some (.drain flush)
  | .warm _ | .reconcile _ | .process _ _ | .failed | .broker _ => none

end Fanout

/-- Each document of the event is an order of the customer. -/
def Event.Private (event : Event) (customer : String) : Prop :=
  ∀ doc, event.before = some doc ∨ event.after = some doc →
    doc.get "customer_name" = .str customer

instance (event : Event) (customer : String) : Decidable (event.Private customer) :=
  decidable_of_iff (∀ doc ∈ event.before.toList ++ event.after.toList,
      (doc.get "customer_name").pyEq (.str customer) = true) (by
    simp [Event.Private, Value.pyEq_str_iff])

/-- A client that asked for the orders of a customer was sent no others. -/
def Client.Confidential (client : Client) : Prop :=
  ∀ customer, client.subscription.customer = some customer →
    ∀ event ∈ client.delivered, event.Private customer

def Broker.Confidential (broker : Broker) : Prop :=
  ∀ client ∈ broker.clients, client.Confidential

/-- Between the first event of a window and its last the order changed hands. -/
def ChangesHands (window : List Event) : Prop :=
  ∃ first last earlier later, window.head? = some first ∧ window.getLast? = some last ∧
    first.before = some earlier ∧ last.after = some later ∧
      earlier.get "customer_name" ≠ later.get "customer_name"

structure Broker.Admits (broker : Broker) (event : Event) (id : Nat) (client : Client) :
    Prop where
  released : broker.engaged = false
  registered : id ∈ broker.registered
  present : broker.clients[id]? = some client
  matched : client.subscription.matches event = true
  space : client.full broker.maxQueue = false

/-- No window in which an order changed hands is queued for a client that asked for the
orders of a customer. -/
def Fanout.Discreet (windows : Windows) (fanout : Fanout) (action : FanoutAction) : Prop :=
  ∀ bufferAction emission, fanout.bufferAction? action = some bufferAction →
    fanout.buffer.Sends windows bufferAction emission →
      ∀ id client, fanout.broker.Admits emission.event id client →
        client.subscription.customer.isSome = true → ¬ChangesHands emission.members

theorem Doc.orElse_cases (doc : Option Doc) (other : Doc) :
    doc = some (Doc.orElse doc other) ∨ Doc.orElse doc other = other := by
  unfold Doc.orElse
  split
  · split
    · exact Or.inr rfl
    · exact Or.inl rfl
  · exact Or.inr rfl

theorem filteredDoc_shown {before after : Option Doc} {field text : String}
    (owned : (filteredDoc before after).get field = .str text) :
    ∃ doc, (before = some doc ∨ after = some doc) ∧ doc.get field = .str text := by
  unfold filteredDoc at owned
  rcases Doc.orElse_cases after (Doc.orElse before ∅) with left | skipped
  · exact ⟨_, Or.inr left, owned⟩
  · rw [skipped] at owned
    rcases Doc.orElse_cases before ∅ with had | empty
    · exact ⟨_, Or.inl had, owned⟩
    · rw [empty] at owned
      cases owned

/-- An event that the filter lets through is private iff its order did not change hands
in the window. -/
theorem StandsFor.private_iff {event : Event} {members : List Event}
    (stands : StandsFor event members) {customer : String}
    (owned : (filteredDoc event.before event.after).get "customer_name" = .str customer) :
    event.Private customer ↔ ¬ChangesHands members := by
  obtain ⟨first, last, starts, ends, before, after⟩ :
      ∃ first last, members.head? = some first ∧ members.getLast? = some last ∧
        event.before = first.before ∧ event.after = last.after := by
    obtain ⟨first, rest, rfl, rfl⟩ := stands
    cases found : rest.getLast? with
    | none => exact ⟨first, first, rfl, by simp [List.getLast?_cons, found], rfl, rfl⟩
    | some last => exact ⟨first, last, rfl, by simp [List.getLast?_cons, found], rfl, rfl⟩
  constructor
  · rintro own ⟨first', last', earlier, later, starts', ends', had, left, differs⟩
    cases starts.symm.trans starts'
    cases ends.symm.trans ends'
    apply differs
    rw [own earlier (Or.inl (before.trans had)), own later (Or.inr (after.trans left))]
  · intro kept
    have same (earlier later : Doc) (had : event.before = some earlier)
        (left : event.after = some later) :
        earlier.get "customer_name" = later.get "customer_name" := by
      by_contra differs
      exact kept ⟨first, last, earlier, later, starts, ends, before.symm.trans had,
        after.symm.trans left, differs⟩
    obtain ⟨shown, origin, named⟩ := filteredDoc_shown owned
    intro doc either
    rcases origin with had | left
    · rcases either with had' | left'
      · cases had.symm.trans had'
        exact named
      · rw [← same shown doc had left', named]
    · rcases either with had' | left'
      · rw [same doc shown had' left, named]
      · cases left.symm.trans left'
        exact named

section

variable {broker next : Broker} {id : Nat}

theorem Client.confidential_put (client : Client) (event : Event) :
    (client.put (.event event)).Confidential ↔ client.Confidential ∧
      ∀ customer, client.subscription.customer = some customer → event.Private customer := by
  unfold Client.Confidential
  rw [client.delivered_put]
  simp only [Client.put, QueueItem.event?, Option.toList_some, List.forall_mem_append,
    List.forall_mem_singleton]
  exact ⟨fun all => ⟨fun customer own => (all customer own).1,
      fun customer own => (all customer own).2⟩,
    fun both customer own => ⟨both.1 customer own, both.2 customer own⟩⟩

theorem Client.confidential_congr {client changed : Client}
    (subscription : changed.subscription = client.subscription)
    (delivered : changed.delivered = client.delivered) :
    changed.Confidential ↔ client.Confidential := by
  unfold Client.Confidential
  rw [subscription, delivered]

theorem Client.confidential_tryPut (maxQueue : Nat) {item : QueueItem}
    (unheard : item.event? = none) (client : Client) :
    (client.tryPut maxQueue item).Confidential ↔ client.Confidential :=
  Client.confidential_congr (Broker.subscription_tryPut maxQueue item client)
    (client.delivered_tryPut maxQueue unheard)

namespace Broker

theorem forall_mem_modify {holds : Client → Prop} {change : Client → Client}
    (same : ∀ client, holds (change client) ↔ holds client) (clients : List Client)
    (id : Nat) :
    (∀ client ∈ clients.modify id change, holds client) ↔
      ∀ client ∈ clients, holds client := by
  induction clients generalizing id with
  | nil => simp
  | cons client rest ih =>
      cases id with
      | zero => simp [same]
      | succ id => simp [ih]

theorem confidential_update (broker : Broker) (id : Nat) {change : Client → Client}
    (same : ∀ client, (change client).Confidential ↔ client.Confidential) :
    (broker.update id change).Confidential ↔ broker.Confidential :=
  forall_mem_modify same broker.clients id

theorem confidential_broadcastSystem (broker : Broker) (payload : Doc) :
    (broker.broadcastSystem payload).Confidential ↔ broker.Confidential := by
  have kept (ids : List Nat) (middle : Broker) :
      (ids.foldl (fun broker id =>
        broker.update id (Client.tryPut broker.maxQueue (.system payload))) middle).Confidential ↔
          middle.Confidential := by
    induction ids generalizing middle with
    | nil => rfl
    | cons id rest ih =>
        refine (ih _).trans (confidential_update middle id ?_)
        intro client
        exact client.confidential_tryPut middle.maxQueue rfl
  exact kept broker.registered broker

theorem confidential_step {action : BrokerAction}
    (stepped : step broker action = some next) (other : ∀ event, action ≠ .broadcast event) :
    next.Confidential ↔ broker.Confidential := by
  cases step_cases stepped with
  | @subscribed subscription =>
      have silent : Client.Confidential { subscription } := by
        intro customer own event sent
        cases sent
      refine List.forall_mem_append.trans (and_iff_left ?_)
      intro client last
      rw [List.mem_singleton.mp last]
      exact silent
  | unsubscribed | engaged | released => exact Iff.rfl
  | @broadcast event => exact absurd rfl (other event)
  | broadcastSystem => exact confidential_broadcastSystem broker _
  | heartbeat =>
      apply confidential_update
      intro client
      exact client.confidential_tryPut broker.maxQueue rfl
  | read _ _ =>
      apply confidential_update
      intro client
      exact Client.confidential_congr rfl client.delivered_take

theorem confidential_iff :
    broker.Confidential ↔
      ∀ id seat, broker.seat id = some seat → seat.client.Confidential := by
  constructor
  · intro all id seat found
    obtain ⟨client, present, rfl⟩ := Option.map_eq_some_iff.mp found
    exact all client (List.mem_of_getElem? present)
  · intro all client member
    obtain ⟨id, known, rfl⟩ := List.getElem_of_mem member
    exact all id _ (seat_of_known known)

theorem confidential_offer (maxQueue : Nat) (event : Event) (seat : Seat) :
    (seat.offer maxQueue event).client.Confidential ↔
      seat.client.Confidential ∧
        (seat.client.subscription.matches event = true → seat.client.full maxQueue = false →
          ∀ customer, seat.client.subscription.customer = some customer →
            event.Private customer) := by
  unfold Seat.offer
  cases matched : seat.client.subscription.matches event with
  | false => simp
  | true =>
      cases full : seat.client.full maxQueue with
      | true =>
          have dropped : seat.client.drop.Confidential ↔ seat.client.Confidential :=
            Client.confidential_congr rfl rfl
          simp only [Bool.not_true, if_neg Bool.false_ne_true, if_pos]
          split
          · simpa [Seat.leave, Seat.update] using dropped
          · simpa [Seat.update] using dropped
      | false => simpa [Seat.update] using seat.client.confidential_put event

theorem confidential_broadcast (numbered : broker.Numbered) (event : Event) :
    (broker.broadcast event).Confidential ↔ broker.Confidential ∧
      ∀ id client, broker.Admits event id client →
        ∀ customer, client.subscription.customer = some customer →
          event.Private customer := by
  have own (id : Nat) (seat : Seat) (found : broker.seat id = some seat) :
      (seat.after broker.maxQueue broker.engaged (.broadcast event)).client.Confidential ↔
        seat.client.Confidential ∧ (broker.Admits event id seat.client →
          ∀ customer, seat.client.subscription.customer = some customer →
            event.Private customer) := by
    obtain ⟨client, present, rfl⟩ := Option.map_eq_some_iff.mp found
    simp only [Seat.after]
    split
    · rename_i engaged
      refine (and_iff_left ?_).symm
      intro admits
      exact absurd (engaged.symm.trans admits.released) (by decide)
    · rename_i released
      split
      · rename_i registered
        rw [confidential_offer]
        refine and_congr_right fun _ => ?_
        constructor
        · intro offered admits
          exact offered admits.matched admits.space
        · intro admitted matched space
          exact admitted ⟨Bool.eq_false_iff.mpr released, of_decide_eq_true registered,
            present, matched, space⟩
      · rename_i gone
        refine (and_iff_left ?_).symm
        intro admits
        exact absurd (decide_eq_true admits.registered) gone
  rw [confidential_iff, confidential_iff]
  constructor
  · intro all
    constructor
    · intro id seat found
      apply ((own id seat found).mp _).1
      exact all id _ (by rw [seat_broadcast numbered, found, Option.map_some])
    · intro id client admits
      have found := seat_of_known (List.getElem?_eq_some_iff.mp admits.present).1
      obtain ⟨known, rfl⟩ := List.getElem?_eq_some_iff.mp admits.present
      apply ((own id _ found).mp _).2 admits
      exact all id _ (by rw [seat_broadcast numbered, found, Option.map_some])
  · rintro ⟨earlier, admitted⟩ id seat found
    rw [seat_broadcast numbered] at found
    obtain ⟨before, present, rfl⟩ := Option.map_eq_some_iff.mp found
    exact (own id before present).mpr
      ⟨earlier id before present, admitted id before.client⟩

end Broker

end

namespace Fanout

variable {windows : Windows} {fanout next : Fanout}

structure Sound (windows : Windows) (fanout : Fanout) : Prop where
  numbered : fanout.broker.Numbered
  buffered : ∃ actions, exec (CohesionBuffer.step windows) {} actions = some fanout.buffer

inductive Step (windows : Windows) (fanout : Fanout) : FanoutAction → Fanout → Prop where
  | watched {action : FanoutAction} {next : Fanout} :
      fanout.bufferAction? action = none → next.buffer = fanout.buffer →
        next.broker = fanout.broker → Step windows fanout action next
  | quiet {action : FanoutAction} {bufferAction : BufferAction} {next : Fanout} :
      fanout.bufferAction? action = some bufferAction →
        CohesionBuffer.step windows fanout.buffer bufferAction = some next.buffer →
          next.buffer.emitted = fanout.buffer.emitted →
            next.broker = fanout.broker → Step windows fanout action next
  | sent {action : FanoutAction} {bufferAction : BufferAction} {emission : Emission}
      {next : Fanout} :
      fanout.bufferAction? action = some bufferAction →
        CohesionBuffer.step windows fanout.buffer bufferAction = some next.buffer →
          fanout.buffer.Sends windows bufferAction emission →
            next.buffer.emitted = fanout.buffer.emitted ++ [emission] →
              next.broker = fanout.broker.broadcast emission.event →
                Step windows fanout action next
  | brokered {action : BrokerAction} {next : Fanout} :
      (∀ event, action ≠ .broadcast event) →
        Broker.step fanout.broker action = some next.broker →
          next.buffer = fanout.buffer → Step windows fanout (.broker action) next

theorem step_advance {middle : Fanout} {action : FanoutAction} {bufferAction : BufferAction}
    (asks : fanout.bufferAction? action = some bufferAction)
    (buffer : middle.buffer = fanout.buffer) (broker : middle.broker = fanout.broker)
    (advanced : middle.advance windows bufferAction = some next) :
    Step windows fanout action next := by
  obtain ⟨moved, stepped, rfl⟩ := Option.map_eq_some_iff.mp advanced
  rw [buffer] at stepped
  rcases CohesionBuffer.emitted_step stepped with same | ⟨emission, sends, grown⟩
  · refine .quiet asks stepped same ?_
    dsimp only
    rw [buffer, same, List.drop_length, broker]
    rfl
  · refine .sent asks stepped sends grown ?_
    dsimp only
    rw [buffer, grown, List.drop_left, broker]
    rfl

theorem step_cases {action : FanoutAction} (stepped : step windows fanout action = some next) :
    Step windows fanout action next := by
  cases action with
  | warm cache =>
      simp only [step] at stepped
      split at stepped
      · cases stepped
        exact .watched rfl rfl rfl
      · cases stepped
  | reconcile orderId =>
      simp only [step] at stepped
      split at stepped
      · cases stepped
        exact .watched rfl rfl rfl
      · cases stepped
  | process change correlationId =>
      simp only [step] at stepped
      split at stepped
      · cases stepped
        exact .watched rfl rfl rfl
      · cases stepped
        exact .watched rfl rfl rfl
      · cases stepped
  | appended stamp =>
      simp only [step] at stepped
      split at stepped
      · rename_i awaited
        refine step_advance ?_ ?_ ?_ stepped
        · rw [bufferAction?, awaited]
          rfl
        · rfl
        · rfl
      · cases stepped
  | failed =>
      simp only [step] at stepped
      split at stepped
      · cases stepped
        exact .watched rfl rfl rfl
      · cases stepped
  | expire timer => exact step_advance rfl rfl rfl stepped
  | flushAll => exact step_advance rfl rfl rfl stepped
  | drain flush => exact step_advance rfl rfl rfl stepped
  | broker action =>
      cases action with
      | broadcast event => cases stepped
      | _ =>
          simp only [step, Option.map_eq_some_iff] at stepped
          obtain ⟨broker, moved, rfl⟩ := stepped
          exact .brokered (fun event equal => by cases equal) moved rfl

theorem sound_step {action : FanoutAction} (sound : Sound windows fanout)
    (stepped : step windows fanout action = some next) : Sound windows next := by
  obtain ⟨numbered, actions, buffered⟩ := sound
  cases step_cases stepped with
  | watched _ buffer broker =>
      refine ⟨broker ▸ numbered, actions, ?_⟩
      rw [buffer]
      exact buffered
  | quiet _ moved _ broker =>
      exact ⟨broker ▸ numbered, _, exec_snoc.mpr ⟨_, buffered, moved⟩⟩
  | sent _ moved _ _ broker =>
      refine ⟨?_, _, exec_snoc.mpr ⟨_, buffered, moved⟩⟩
      rw [broker]
      exact (Broker.narrows_broadcast fanout.broker _).numbered numbered
  | brokered _ moved buffer =>
      refine ⟨Broker.numbered_step numbered moved, actions, ?_⟩
      rw [buffer]
      exact buffered

theorem emitted_of_sends {buffer after : CohesionBuffer} {action : BufferAction}
    {emission : Emission} (stepped : CohesionBuffer.step windows buffer action = some after)
    (sends : buffer.Sends windows action emission) :
    after.emitted = buffer.emitted ++ [emission] := by
  cases CohesionBuffer.step_cases stepped with
  | bypassed _ =>
      rw [sends.2]
      rfl
  | opened patient _ | merged patient _ => exact absurd sends.1 patient
  | missed found absent =>
      obtain ⟨entry, ⟨timer, found', stored⟩, -⟩ := sends
      cases found.symm.trans found'
      cases absent.symm.trans stored
  | expired found stored =>
      obtain ⟨entry, ⟨timer, found', stored'⟩, rfl⟩ := sends
      cases found.symm.trans found'
      cases stored.symm.trans stored'
      rfl
  | flushed =>
      obtain ⟨entry, flushes, -⟩ := sends
      exact flushes.elim
  | drained found =>
      obtain ⟨entry, ⟨rest, found'⟩, rfl⟩ := sends
      cases found.symm.trans found'
      rfl

theorem stands_of_sends {actions : List BufferAction} {buffer : CohesionBuffer}
    (buffered : exec (CohesionBuffer.step windows) {} actions = some buffer)
    {action : BufferAction} {emission : Emission}
    (sends : buffer.Sends windows action emission) :
    StandsFor emission.event emission.members := by
  rcases CohesionBuffer.sends_cases sends with ⟨event, -, rfl⟩ | ⟨-, entry, held, rfl⟩
  · exact ⟨event, [], rfl, rfl⟩
  · exact (CohesionBuffer.held_sound buffered entry held).latest

/-- One step keeps the clients confidential iff it sends them no window in which an order
changed hands. -/
theorem confidential_step {action : FanoutAction} (sound : Sound windows fanout)
    (stepped : step windows fanout action = some next) :
    next.broker.Confidential ↔
      fanout.broker.Confidential ∧ fanout.Discreet windows action := by
  obtain ⟨numbered, actions, buffered⟩ := sound
  cases step_cases stepped with
  | watched silent _ broker =>
      rw [broker]
      refine (and_iff_left ?_).symm
      intro bufferAction emission asks
      cases silent.symm.trans asks
  | quiet asks moved same broker =>
      rw [broker]
      refine (and_iff_left ?_).symm
      intro bufferAction emission asks' sends
      cases asks.symm.trans asks'
      have grown := emitted_of_sends moved sends
      rw [same] at grown
      simp at grown
  | @sent _ bufferAction emission _ asks moved sends grown broker =>
      rw [broker, Broker.confidential_broadcast numbered]
      refine and_congr_right fun _ => ?_
      have shown (id : Nat) (client : Client)
          (admits : fanout.broker.Admits emission.event id client) (customer : String)
          (own : client.subscription.customer = some customer) :
          emission.event.Private customer ↔ ¬ChangesHands emission.members := by
        apply (stands_of_sends buffered sends).private_iff
        exact ((client.subscription.matches_iff _).mp admits.matched).2 customer own
      constructor
      · intro keeps bufferAction' emission' asks' sends' id client admits some
        cases asks.symm.trans asks'
        have equal := grown.symm.trans (emitted_of_sends moved sends')
        cases List.append_cancel_left equal
        obtain ⟨customer, own⟩ := Option.isSome_iff_exists.mp some
        exact (shown id client admits customer own).mp (keeps id client admits customer own)
      · intro discreet id client admits customer own
        apply (shown id client admits customer own).mpr
        exact discreet bufferAction emission asks sends id client admits (by rw [own]; rfl)
  | brokered other moved _ =>
      rw [Broker.confidential_step moved other]
      refine (and_iff_left ?_).symm
      intro bufferAction emission asks
      cases asks

theorem sound_of_reached {cache : Orders} {maxQueue : Nat} {actions : List FanoutAction}
    (reached : exec (step windows) { cache, broker := { maxQueue } } actions = some fanout) :
    Sound windows fanout := by
  refine exec_invariant (motive := Sound windows)
    ⟨Broker.numbered_empty maxQueue false, [], rfl⟩ ?_ reached
  intro state action finish sound stepped
  exact sound_step sound stepped

/-- In a run of the watcher, the buffer and the broker no client that asked for the orders
of a customer is sent another's, in any document of an event, iff no step sends it a window
in which an order changed hands. -/
theorem customer_privacy_iff (windows : Windows) (cache : Orders) (maxQueue : Nat)
    {actions : List FanoutAction} {fanout : Fanout}
    (reached : exec (step windows) { cache, broker := { maxQueue } } actions = some fanout) :
    fanout.broker.Confidential ↔
      Along (step windows) (fun _ => Discreet windows) { cache, broker := { maxQueue } }
        actions := by
  induction actions using List.reverseRecOn generalizing fanout with
  | nil =>
      cases reached
      refine iff_of_true ?_ along_nil
      intro client member
      cases member
  | append_singleton actions action ih =>
      obtain ⟨middle, before, stepped⟩ := exec_snoc.mp reached
      rw [confidential_step (sound_of_reached before) stepped, along_snoc, ih before]
      refine and_congr_right fun _ => ?_
      constructor
      · intro discreet state arrived
        cases before.symm.trans arrived
        exact discreet
      · intro discreet
        exact discreet middle before

/-! An order of Alice that is given to Bob. -/

def orderOf (customer : String) : Doc :=
  .ofList [("customer_name", .str customer), ("status", .str "pending")]

def ordered : Change := ⟨.insert, "1", some (orderOf "Alice"), none, none⟩

def handedOver : Change := ⟨.update, "1", some (orderOf "Bob"), none, none⟩

def handOver (customer : String) : List FanoutAction :=
  [.broker (.subscribe { customer := some customer }),
    .process ordered "first", .appended ⟨"a", sampleTime, 1, auditGenesisHash⟩,
    .process handedOver "second", .appended ⟨"b", sampleTime, 2, auditGenesisHash⟩,
    .expire 0]

theorem handed_over_order_is_shown :
    ∃ fanout client event,
      exec (step CohesionBuffer.sampleWindows) { cache := ∅, broker := { maxQueue := 200 } }
          (handOver "Bob") = some fanout ∧
        client ∈ fanout.broker.clients ∧ client.subscription.customer = some "Bob" ∧
        event ∈ client.delivered ∧ ¬event.Private "Bob" := by
  have facts : (exec (step CohesionBuffer.sampleWindows)
      { cache := ∅, broker := { maxQueue := 200 } } (handOver "Bob")).map (fun fanout =>
        fanout.broker.clients.map fun client =>
          (client.subscription.customer,
            client.delivered.map fun event => decide (event.Private "Bob"))) =
      some [(some "Bob", [false])] := by
    decide +kernel
  obtain ⟨fanout, reached, clients⟩ := Option.map_eq_some_iff.mp facts
  obtain ⟨client, only, values⟩ := List.map_eq_singleton_iff.mp clients
  obtain ⟨asked, sent⟩ := Prod.mk.inj values
  obtain ⟨event, single, shown⟩ := List.map_eq_singleton_iff.mp sent
  exact ⟨fanout, client, event, reached, by simp [only], asked, by simp [single],
    of_decide_eq_false shown⟩

theorem customer_privacy_of_owner :
    ∃ fanout, exec (step CohesionBuffer.sampleWindows)
        { cache := ∅, broker := { maxQueue := 200 } } (handOver "Alice") = some fanout ∧
      fanout.broker.Confidential ∧
      Along (step CohesionBuffer.sampleWindows)
        (fun _ => Discreet CohesionBuffer.sampleWindows)
        { cache := ∅, broker := { maxQueue := 200 } } (handOver "Alice") := by
  have facts : (exec (step CohesionBuffer.sampleWindows)
      { cache := ∅, broker := { maxQueue := 200 } } (handOver "Alice")).map (fun fanout =>
        fanout.broker.clients.map fun client =>
          (client.subscription.customer,
            client.delivered.map fun event => decide (event.Private "Alice"))) =
      some [(some "Alice", [true])] := by
    decide +kernel
  obtain ⟨fanout, reached, clients⟩ := Option.map_eq_some_iff.mp facts
  obtain ⟨client, only, values⟩ := List.map_eq_singleton_iff.mp clients
  obtain ⟨asked, sent⟩ := Prod.mk.inj values
  obtain ⟨event, single, shown⟩ := List.map_eq_singleton_iff.mp sent
  have confidential : fanout.broker.Confidential := by
    intro other member customer own sent' delivered
    rw [only, List.mem_singleton] at member
    subst member
    cases asked.symm.trans own
    rw [single, List.mem_singleton] at delivered
    rw [delivered]
    exact of_decide_eq_true shown
  exact ⟨fanout, reached, confidential,
    (customer_privacy_iff CohesionBuffer.sampleWindows ∅ 200 reached).mp confidential⟩

end Fanout

end OrderStream
