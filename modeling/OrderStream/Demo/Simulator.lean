import OrderStream.Routes.Orders

/-! `DemoSimulator`, beside the requests that come in while it runs. -/

namespace OrderStream

open Transition

def products : List String :=
  ["RELIANCE 2500 CE", "TCS 4100 PE", "HDFC BANK 1700 FUT", "NIFTY 50 INDEX",
    "BANKNIFTY 51000 CE", "INFY 1500 PE", "WIPRO 590 FUT", "TATAMOTORS 1100 CE",
    "ADANI ENT 3200 PE", "ITC 480 FUT", "SBIN 820 CE", "AXIS BANK 1180 PE"]

def algoIds : List String :=
  ["APT-MOMENTUM-V2", "APT-RSI-MEAN-REVERT", "APT-BB-SQUEEZE", "APT-VWAP-SCALP"]

def brokerIds : List String := ["zerodha", "angelone", "fyers", "upstox", "dhan"]

def customers : List String :=
  ["Rahul Sharma", "Priya Krishnan", "Amit Reddy", "Sneha Patel",
    "Arjun Nair", "Anjali Iyer", "Vikram Singh", "Pooja Joshi",
    "Karthik Menon", "Divya Rao", "Rohan Kapoor", "Meera Banerjee"]

/-- `STATUS_PROGRESSION.get(status, [])` -/
def statusProgression (status : Value) : List String :=
  match status with
  | .str "pending" => ["validating", "cancelled"]
  | .str "validating" => ["shipped", "cancelled"]
  | .str "shipped" => ["delivered"]
  | _ => []

def newStatuses (order : Doc) : List String :=
  let options := statusProgression (order.get "status")
  let nonCancel := options.filter fun status => decide (status ≠ "cancelled")
  if nonCancel.isEmpty then options else nonCancel

/-- What `order.get("price", 1000)`, times a random factor, can come to.  NaN stays NaN; a
price that is null or text raises. -/
def repriced (order : Doc) (price : PyFloat) : Bool :=
  match (order.get? "price").getD (.int 1000) with
  | .int _ | .bool _ => decide (price ≠ .nan)
  | .float stored => decide (price = .nan ↔ stored = .nan)
  | _ => false

/-- `{"$nin": ["delivered", "cancelled"]}` of a status that is text; the query also looks
into an array. -/
def isOpen (status : Value) : Bool :=
  !(status.pyEq (.str "delivered") || status.pyEq (.str "cancelled"))

/-- `{"$in": ["pending", "validating"]}` of such a status -/
def isCancellable (status : Value) : Bool :=
  status.pyEq (.str "pending") || status.pyEq (.str "validating")

def statusUpdates (status : String) (price : Option PyFloat) (now : UtcNow) :
    List (String × Value) :=
  [("status", .str status), ("updated_at", .temporal now.stored)] ++
    (price.map fun price => ("price", .float price)).toList

/-- `random.choice(candidates)`, not written yet -/
inductive ChosenOrder where
  | toUpdate (orderId : String) (order : Doc)
  | toCancel (orderId : String) (order : Doc)

namespace ChosenOrder

def orderId : ChosenOrder → String
  | .toUpdate orderId _ | .toCancel orderId _ => orderId

def order : ChosenOrder → Doc
  | .toUpdate _ order | .toCancel _ order => order

end ChosenOrder

structure DemoSimulator where
  api : OrdersApi
  chosen : Option ChosenOrder := none

/-- `fail` is an exception that the loop logs, or a return without a write. -/
inductive DemoAction where
  | request (action : OrdersAction)
  | insertOne (hex customerName productName : String) (price : PyFloat.FloatText)
      (algoId brokerId : String) (now : UtcNow)
  | findToUpdate (orderId : String)
  | updateOne (newStatus : String) (price : Option PyFloat) (now : UtcNow)
  | findToCancel (orderId : String)
  | cancelOne (now : UtcNow)
  | fail

namespace DemoSimulator

/-- `update_one` on whatever the order is by now -/
def updateMatched (api : OrdersApi) (orderId : String) (updates : List (String × Value)) :
    OrdersApi :=
  match api.orders.get? orderId with
  | none => api
  | some doc => api.updateOne orderId doc updates

def find (state : DemoSimulator) (orderId : String) (passes : Value → Bool) : Option Doc :=
  match state.chosen with
  | some _ => none
  | none => (state.api.orders.get? orderId).filter fun doc => passes (doc.get "status")

def newOrder (customerName productName : String) (price : PyFloat.FloatText)
    (algoId brokerId : String) : OrderCreate where
  customerName := customerName
  productName := productName
  status := .pending
  price := some (.finite price)
  algoId := some algoId
  brokerId := some brokerId

def insertOne (state : DemoSimulator) (hex : String) (payload : OrderCreate) (now : UtcNow) :
    DemoSimulator :=
  let orderId := "ord_" ++ hex
  if state.api.orders.contains orderId then state
  else
    { state with
      api := state.api.perform (.insert orderId (createDoc payload orderId now.stored)) }

def step (state : DemoSimulator) : DemoAction → Option DemoSimulator
  | .request action => (OrdersApi.step state.api action).map fun api => { state with api }
  | .insertOne hex customerName productName price algoId brokerId now =>
      if state.chosen.isNone ∧ customerName ∈ customers ∧ productName ∈ products ∧
          algoId ∈ algoIds ∧ brokerId ∈ brokerIds then
        some (state.insertOne hex (newOrder customerName productName price algoId brokerId) now)
      else none
  | .findToUpdate orderId =>
      (state.find orderId isOpen).map fun order =>
        { state with chosen := some (.toUpdate orderId order) }
  | .updateOne newStatus price now =>
      match state.chosen with
      | some (.toUpdate orderId order) =>
          if newStatus ∈ newStatuses order ∧ price.all (repriced order) then
            some
              { api := updateMatched state.api orderId (statusUpdates newStatus price now)
                chosen := none }
          else none
      | some (.toCancel _ _) | none => none
  | .findToCancel orderId =>
      (state.find orderId isCancellable).map fun order =>
        { state with chosen := some (.toCancel orderId order) }
  | .cancelOne now =>
      match state.chosen with
      | some (.toCancel orderId _) =>
          some
            { api := updateMatched state.api orderId (statusUpdates "cancelled" none now)
              chosen := none }
      | some (.toUpdate _ _) | none => none
  | .fail => some { state with chosen := none }

end DemoSimulator

def OrdersAction.givenStatus (action : OrdersAction) (orderId : String) :
    Option OrderStatus :=
  match action with
  | .createOrder payload hex _ =>
      if "ord_" ++ hex = orderId then some payload.status else none
  | .updateOrder _ other payload _ => if other = orderId then payload.status else none
  | .findUpdated _ | .deleteOrder _ => none

namespace OrdersApi

variable {state next : OrdersApi}

theorem get?_perform (state : OrdersApi) (write : Write) (orderId : String) :
    (state.perform write).orders.get? orderId =
      if orderId = write.orderId then write.result else state.orders.get? orderId := by
  split
  · rename_i same
    rw [same]
    exact Write.get?_apply_self write state.orders
  · rename_i differs
    exact Write.get?_apply_of_ne write state.orders differs

theorem get?_updateOne (state : OrdersApi) {orderId : String} {doc : Doc}
    (stored : state.orders.get? orderId = some doc) (updates : List (String × Value))
    (other : String) :
    (state.updateOne orderId doc updates).orders.get? other =
      if other = orderId then some (doc.update updates) else state.orders.get? other := by
  rw [updateOne]
  by_cases same : unmodified doc updates = true
  · rw [if_pos same, update_of_unmodified same]
    split
    · rename_i named
      rw [named, stored]
    · rfl
  · rw [if_neg same, get?_perform]
    rfl

def StatusFrom (before : Orders) (orderId : String) (doc : Doc) : Prop :=
  ∃ old, before.get? orderId = some old ∧ doc.get "status" = old.get "status"

theorem createOrder_status {payload : OrderCreate} {hex : String} {now : UtcNow}
    {orderId : String} {doc : Doc}
    (stored : (state.createOrder payload hex now).orders.get? orderId = some doc) :
    (∃ status ∈ OrdersAction.givenStatus (.createOrder payload hex now) orderId,
      doc.get "status" = .str status.value) ∨ StatusFrom state.orders orderId doc := by
  unfold createOrder at stored
  dsimp only at stored
  split at stored
  · exact Or.inr ⟨doc, stored, rfl⟩
  · change (state.perform _).orders.get? orderId = some doc at stored
    rw [get?_perform] at stored
    split at stored
    · rename_i same
      cases stored
      exact Or.inl ⟨payload.status, if_pos same.symm, rfl⟩
    · exact Or.inr ⟨doc, stored, rfl⟩

theorem get_status_setFields (doc : Doc) (payload : OrderUpdate) (now : UtcNow) :
    Doc.get (doc.update (payload.setFields now)) "status" =
      ((payload.status.map fun status => .str status.value).getD (doc.get "status")) := by
  rw [Doc.get, PyDict.get?_update _ (payload.nodup_setFields now), OrderUpdate.setFields,
    List.lookup_append, payload.lookup_status]
  cases payload.status <;> rfl

theorem updateOrder_status {request : Nat} {other : String} {payload : OrderUpdate}
    {now : UtcNow} {orderId : String} {doc : Doc}
    (stored : (state.updateOrder request other payload now).orders.get? orderId = some doc) :
    (∃ status ∈ OrdersAction.givenStatus (.updateOrder request other payload now) orderId,
      doc.get "status" = .str status.value) ∨ StatusFrom state.orders orderId doc := by
  unfold updateOrder at stored
  split at stored
  · exact Or.inr ⟨doc, stored, rfl⟩
  · split at stored
    · exact Or.inr ⟨doc, stored, rfl⟩
    · rename_i old found
      change (state.updateOne _ _ _).orders.get? orderId = some doc at stored
      rw [get?_updateOne _ found] at stored
      split at stored
      · rename_i same
        cases stored
        subst same
        cases given : payload.status with
        | none =>
            refine Or.inr ⟨old, found, ?_⟩
            rw [get_status_setFields, given]
            rfl
        | some status =>
            refine Or.inl ⟨status, (if_pos rfl).trans given, ?_⟩
            rw [get_status_setFields, given]
            rfl
      · exact Or.inr ⟨doc, stored, rfl⟩

theorem request_status {action : OrdersAction} (stepped : step state action = some next)
    {orderId : String} {doc : Doc} (stored : next.orders.get? orderId = some doc) :
    (∃ status ∈ action.givenStatus orderId, doc.get "status" = .str status.value) ∨
      StatusFrom state.orders orderId doc := by
  cases action with
  | createOrder payload hex now =>
      cases stepped
      exact createOrder_status stored
  | updateOrder request other payload now =>
      simp only [step] at stepped
      split at stepped
      · cases stepped
      · cases stepped
        exact updateOrder_status stored
  | findUpdated request =>
      obtain ⟨named, -, rfl⟩ := Option.map_eq_some_iff.mp stepped
      exact Or.inr ⟨doc, stored, rfl⟩
  | deleteOrder other =>
      cases stepped
      unfold deleteOrder at stored
      split at stored
      · change (state.perform _).orders.get? orderId = some doc at stored
        rw [get?_perform] at stored
        split at stored
        · cases stored
        · exact Or.inr ⟨doc, stored, rfl⟩
      · exact Or.inr ⟨doc, stored, rfl⟩

end OrdersApi

namespace DemoSimulator

inductive Step (state : DemoSimulator) : DemoAction → DemoSimulator → Prop where
  | requested {action : OrdersAction} {api : OrdersApi} :
      OrdersApi.step state.api action = some api →
        Step state (.request action) { state with api }
  | inserted {hex customerName productName : String} {price : PyFloat.FloatText}
      {algoId brokerId : String} {now : UtcNow} : state.chosen = none →
        Step state (.insertOne hex customerName productName price algoId brokerId now)
          (state.insertOne hex (newOrder customerName productName price algoId brokerId) now)
  | foundToUpdate {orderId : String} {order : Doc} : state.chosen = none →
      state.api.orders.get? orderId = some order → isOpen (order.get "status") = true →
        Step state (.findToUpdate orderId)
          { state with chosen := some (.toUpdate orderId order) }
  | updated {orderId newStatus : String} {order : Doc} {price : Option PyFloat}
      {now : UtcNow} : state.chosen = some (.toUpdate orderId order) →
        newStatus ∈ newStatuses order → price.all (repriced order) = true →
          Step state (.updateOne newStatus price now)
            { api := updateMatched state.api orderId (statusUpdates newStatus price now)
              chosen := none }
  | foundToCancel {orderId : String} {order : Doc} : state.chosen = none →
      state.api.orders.get? orderId = some order → isCancellable (order.get "status") = true →
        Step state (.findToCancel orderId)
          { state with chosen := some (.toCancel orderId order) }
  | cancelled {orderId : String} {order : Doc} {now : UtcNow} :
      state.chosen = some (.toCancel orderId order) →
        Step state (.cancelOne now)
          { api := updateMatched state.api orderId (statusUpdates "cancelled" none now)
            chosen := none }
  | failed : Step state .fail { state with chosen := none }

variable {state next : DemoSimulator} {action : DemoAction}

theorem find_eq_some {orderId : String} {passes : Value → Bool} {order : Doc}
    (found : state.find orderId passes = some order) :
    state.chosen = none ∧ state.api.orders.get? orderId = some order ∧
      passes (order.get "status") = true := by
  unfold find at found
  split at found
  · cases found
  · rename_i idle
    obtain ⟨stored, passed⟩ := Option.filter_eq_some_iff.mp found
    exact ⟨idle, stored, passed⟩

theorem step_cases (stepped : step state action = some next) : Step state action next := by
  cases action with
  | request action =>
      obtain ⟨api, answered, rfl⟩ := Option.map_eq_some_iff.mp stepped
      exact .requested answered
  | insertOne hex customerName productName price algoId brokerId now =>
      simp only [step] at stepped
      split at stepped
      · rename_i listed
        cases stepped
        exact .inserted (Option.isNone_iff_eq_none.mp listed.1)
      · cases stepped
  | findToUpdate orderId =>
      obtain ⟨order, found, rfl⟩ := Option.map_eq_some_iff.mp stepped
      obtain ⟨idle, stored, passed⟩ := find_eq_some found
      exact .foundToUpdate idle stored passed
  | updateOne newStatus price now =>
      simp only [step] at stepped
      split at stepped
      · rename_i orderId order chosen
        split at stepped
        · rename_i allowed
          cases stepped
          exact .updated chosen allowed.1 allowed.2
        · cases stepped
      · cases stepped
      · cases stepped
  | findToCancel orderId =>
      obtain ⟨order, found, rfl⟩ := Option.map_eq_some_iff.mp stepped
      obtain ⟨idle, stored, passed⟩ := find_eq_some found
      exact .foundToCancel idle stored passed
  | cancelOne now =>
      simp only [step] at stepped
      split at stepped
      · cases stepped
        exact .cancelled ‹_›
      · cases stepped
      · cases stepped
  | fail =>
      cases stepped
      exact .failed

structure Sound (state : DemoSimulator) : Prop where
  current : ∀ chosen, state.chosen = some chosen →
    ∀ doc, state.api.orders.get? chosen.orderId = some doc →
      doc.get "status" = chosen.order.get "status"
  cancellable : ∀ orderId order, state.chosen = some (.toCancel orderId order) →
    isCancellable (order.get "status") = true

/-- No request gives the chosen order another status. -/
def Undisturbed (state : DemoSimulator) : DemoAction → Prop
  | .request action =>
      ∀ chosen ∈ state.chosen, ∀ status ∈ action.givenStatus chosen.orderId,
        chosen.order.get "status" = .str status.value
  | _ => True

theorem Sound.idle (idle : state.chosen = none) : state.Sound := by
  refine ⟨?_, ?_⟩
  · intro chosen found
    rw [idle] at found
    cases found
  · intro orderId order found
    rw [idle] at found
    cases found

theorem sound_step (sound : state.Sound) (undisturbed : state.Undisturbed action)
    (stepped : step state action = some next) : next.Sound := by
  cases step_cases stepped with
  | @requested action api answered =>
      refine ⟨?_, sound.cancellable⟩
      intro chosen found doc stored
      rcases OrdersApi.request_status answered stored with
        ⟨status, given, equal⟩ | ⟨old, before, equal⟩
      · rw [equal, undisturbed chosen found status given]
      · rw [equal]
        exact sound.current chosen found old before
  | inserted idle =>
      refine .idle ?_
      unfold insertOne
      dsimp only
      split <;> exact idle
  | @foundToUpdate orderId order _ stored _ =>
      refine ⟨?_, ?_⟩
      · intro chosen found doc again
        cases found
        cases stored.symm.trans again
        rfl
      · intro _ _ found
        cases found
  | @foundToCancel orderId order _ stored passed =>
      refine ⟨?_, ?_⟩
      · intro chosen found doc again
        cases found
        cases stored.symm.trans again
        rfl
      · intro _ _ found
        cases found
        exact passed
  | updated _ _ _ | cancelled _ | failed => exact .idle rfl

theorem nodup_statusUpdates (status : String) (price : Option PyFloat) (now : UtcNow) :
    ((statusUpdates status price now).map Prod.fst).Nodup := by
  have names : ["status", "updated_at", "price"].Nodup := by decide
  cases price with
  | none => exact List.Nodup.sublist (List.sublist_append_left ["status", "updated_at"] _) names
  | some _ => exact names

theorem get_status_updates (doc : Doc) (status : String) (price : Option PyFloat)
    (now : UtcNow) : Doc.get (doc.update (statusUpdates status price now)) "status" =
      .str status := by
  rw [Doc.get, PyDict.get?_update _ (nodup_statusUpdates status price now)]
  rfl

/-- Each order that is still there has its status, or the next one. -/
def Moves (before after : Orders) : Prop :=
  ∀ orderId old new, before.get? orderId = some old → after.get? orderId = some new →
    new.get "status" = old.get "status" ∨
      ∃ status ∈ statusProgression (old.get "status"), new.get "status" = .str status

theorem Moves.refl (orders : Orders) : Moves orders orders := by
  intro orderId old new before after
  cases before.symm.trans after
  exact Or.inl rfl

theorem moves_updateMatched {api : OrdersApi} {orderId status : String}
    {price : Option PyFloat} {now : UtcNow}
    (next : ∀ doc, api.orders.get? orderId = some doc →
      status ∈ statusProgression (doc.get "status")) :
    Moves api.orders (updateMatched api orderId (statusUpdates status price now)).orders := by
  unfold updateMatched
  split
  · exact .refl _
  · rename_i doc stored
    intro other old new before after
    rw [OrdersApi.get?_updateOne _ stored] at after
    split at after
    · rename_i same
      subst same
      cases stored.symm.trans before
      cases after
      exact Or.inr ⟨status, next _ stored, get_status_updates _ status price now⟩
    · cases before.symm.trans after
      exact Or.inl rfl

theorem mem_progression {order : Doc} {status : String} (listed : status ∈ newStatuses order) :
    status ∈ statusProgression (order.get "status") := by
  unfold newStatuses at listed
  dsimp only at listed
  split at listed
  · exact listed
  · exact List.mem_of_mem_filter listed

theorem cancelled_mem_progression {status : Value} (open' : isCancellable status = true) :
    "cancelled" ∈ statusProgression status := by
  rw [isCancellable, Bool.or_eq_true, Value.pyEq_str_iff, Value.pyEq_str_iff] at open'
  rcases open' with rfl | rfl <;> decide

theorem moves_step (sound : state.Sound) (stepped : step state action = some next)
    (own : ∀ request, action ≠ .request request) :
    Moves state.api.orders next.api.orders := by
  cases step_cases stepped with
  | @requested action _ _ => exact absurd rfl (own action)
  | @inserted hex customerName productName price algoId brokerId now _ =>
      unfold insertOne
      dsimp only
      split
      · exact .refl _
      · rename_i absent
        intro orderId old new before after
        rw [OrdersApi.get?_perform] at after
        split at after
        · rename_i same
          rw [same] at before
          have present : state.api.orders.get? ("ord_" ++ hex) = some old := before
          rw [PyDict.contains, present] at absent
          exact absurd rfl absent
        · cases before.symm.trans after
          exact Or.inl rfl
  | foundToUpdate _ _ _ | foundToCancel _ _ _ | failed => exact .refl _
  | @updated orderId newStatus order price now chosen listed _ =>
      apply moves_updateMatched
      intro doc stored
      rw [sound.current _ chosen doc stored]
      exact mem_progression listed
  | @cancelled orderId order now chosen =>
      apply moves_updateMatched
      intro doc stored
      rw [sound.current _ chosen doc stored]
      exact cancelled_mem_progression (sound.cancellable orderId order chosen)

/-- As long as no request gives another status to the order that the simulator is about to
write, the simulator moves orders along `STATUS_PROGRESSION` only. -/
theorem moves_along_progression {finish : DemoSimulator} {actions : List DemoAction}
    (idle : state.chosen = none) (reached : exec step state actions = some finish)
    (undisturbed : Along step (fun _ => Undisturbed) state actions) :
    ∀ before action after middle next, actions = before ++ action :: after →
      exec step state before = some middle → step middle action = some next →
        (∀ request, action ≠ .request request) →
          Moves middle.api.orders next.api.orders := by
  intro before action after middle next split arrived stepped own
  refine moves_step ?_ stepped own
  subst split
  have keeps (taken : List DemoAction) (middle : DemoSimulator) (action : DemoAction)
      (next : DemoSimulator) (_ : exec step state taken = some middle) (sound : middle.Sound)
      (met : middle.Undisturbed action) (stepped : step middle action = some next) :
      next.Sound :=
    sound_step sound met stepped
  exact exec_induction_along (motive := fun _ => Sound) (.idle idle) keeps
    (along_append_left undisturbed) arrived

/-! An order that is updated, and cancelled later; a request answers in between. -/

def sampleActions : List DemoAction :=
  [.findToUpdate "ord_0", .request (.deleteOrder "ord_1"),
    .updateOne "validating" none OrdersApi.sampleNow, .findToCancel "ord_0",
    .cancelOne OrdersApi.sampleNow]

theorem moves_along_progression_of_cancelled :
    ∃ finish, exec step { api := { orders := OrdersApi.sampleCollection } } sampleActions =
        some finish ∧
      ∀ before action after middle next, sampleActions = before ++ action :: after →
        exec step { api := { orders := OrdersApi.sampleCollection } } before = some middle →
          step middle action = some next → (∀ request, action ≠ .request request) →
            Moves middle.api.orders next.api.orders := by
  have ends : (exec step { api := { orders := OrdersApi.sampleCollection } }
      sampleActions).isSome = true := by
    decide +kernel
  obtain ⟨finish, reached⟩ := Option.isSome_iff_exists.mp ends
  refine ⟨finish, reached, moves_along_progression rfl reached ?_⟩
  refine along_cons.mpr ⟨trivial, fun _ _ => along_cons.mpr ⟨?_, fun _ _ => ?_⟩⟩
  · intro _ _ status given
    cases given
  · exact along_cons.mpr ⟨trivial, fun _ _ => along_cons.mpr
      ⟨trivial, fun _ _ => along_cons.mpr ⟨trivial, fun _ _ => along_nil⟩⟩⟩

/-- A request that cancels the order in between is overwritten. -/
example :
    (exec step { api := { orders := OrdersApi.sampleCollection } }
      [.findToUpdate "ord_0",
        .request (.updateOrder 0 "ord_0" { status := some .cancelled } OrdersApi.sampleNow),
        .updateOne "validating" none OrdersApi.sampleNow]).bind
          (fun state => (state.api.orders.get? "ord_0").map fun doc =>
            (doc.get "status").pyEq (.str "validating")) = some true := by
  decide +kernel

end DemoSimulator

end OrderStream
