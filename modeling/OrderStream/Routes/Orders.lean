import OrderStream.Routes.Records
import OrderStream.Theory.Transition

/-! The routes that create, update and delete orders, any number of requests at once. -/

namespace OrderStream

open Transition

mutual
/-- Nothing that `json.dumps(allow_nan=False)` refuses. -/
def Value.isFinite : Value → Bool
  | .float .nan | .float (.inf _) => false
  | .list items | .tuple items => Value.areFinite items
  | .dict fields => Value.holdFinite fields
  | _ => true

def Value.areFinite : List Value → Bool
  | [] => true
  | item :: rest => item.isFinite && Value.areFinite rest

def Value.holdFinite : List (String × Value) → Bool
  | [] => true
  | (_, value) :: rest => value.isFinite && Value.holdFinite rest
end

inductive Answer where
  | created (doc : Doc)
  | ok (doc : Option Doc)
  | noContent
  | httpException (statusCode : Nat) (detail : String)
  | serverError

/-- `JSONResponse` raises on a document with NaN or an infinity in it. -/
def jsonResponse (doc : Doc) (answer : Answer) : Answer :=
  if Value.holdFinite doc.entries then answer else .serverError

/-- The collection, its change stream, and the requests that updated an order and have
not read it again. -/
structure OrdersApi where
  orders : Orders
  writes : List Write := []
  finding : PyDict Nat String := ∅
  answers : List Answer := []

inductive OrdersAction where
  | createOrder (payload : OrderCreate) (hex : String) (now : UtcNow)
  | updateOrder (request : Nat) (orderId : String) (payload : OrderUpdate) (now : UtcNow)
  | findUpdated (request : Nat)
  | deleteOrder (orderId : String)

namespace OrdersApi

def answer (state : OrdersApi) (answer : Answer) : OrdersApi :=
  { state with answers := state.answers ++ [answer] }

def perform (state : OrdersApi) (write : Write) : OrdersApi :=
  { state with orders := write.apply state.orders, writes := state.writes ++ [write] }

def createOrder (state : OrdersApi) (payload : OrderCreate) (hex : String) (now : UtcNow) :
    OrdersApi :=
  let orderId := "ord_" ++ hex
  if state.orders.contains orderId then
    -- a duplicate key
    state.answer .serverError
  else
    let doc := createDoc payload orderId now.aware
    (state.perform (.insert orderId (createDoc payload orderId now.stored))).answer
      (jsonResponse doc (.created doc))

def updateOne (state : OrdersApi) (orderId : String) (doc : Doc)
    (updates : List (String × Value)) : OrdersApi :=
  if unmodified doc updates then state
  else state.perform (.update orderId (doc.update updates))

def updateOrder (state : OrdersApi) (request : Nat) (orderId : String) (payload : OrderUpdate)
    (now : UtcNow) : OrdersApi :=
  if payload.updates.isEmpty then
    state.answer (.httpException 400 "no fields provided")
  else
    match state.orders.get? orderId with
    | none => state.answer (.httpException 404 "order not found")
    | some doc =>
        { state.updateOne orderId doc (payload.setFields now) with
          finding := state.finding.set request orderId }

/-- The answer of `update_order`; another request may have deleted the order. -/
def findUpdated (state : OrdersApi) (request : Nat) (orderId : String) : OrdersApi :=
  let found :=
    match state.orders.get? orderId with
    | none => .ok none
    | some doc => jsonResponse doc (.ok (some doc))
  { state.answer found with finding := state.finding.erase request }

def deleteOrder (state : OrdersApi) (orderId : String) : OrdersApi :=
  if state.orders.contains orderId then
    (state.perform (.delete orderId)).answer .noContent
  else
    state.answer (.httpException 404 "order not found")

def step (state : OrdersApi) : OrdersAction → Option OrdersApi
  | .createOrder payload hex now => some (state.createOrder payload hex now)
  | .updateOrder request orderId payload now =>
      if state.finding.contains request then none
      else some (state.updateOrder request orderId payload now)
  | .findUpdated request => (state.finding.get? request).map (state.findUpdated request)
  | .deleteOrder orderId => some (state.deleteOrder orderId)

end OrdersApi

/-! The same requests on a table of records. -/

abbrev OrderTable := PyDict String OrderRecord

def OrderTable.Shows (table : OrderTable) (orders : Orders) : Prop :=
  ∀ orderId, orders.get? orderId = (table.get? orderId).map (OrderRecord.toDoc orderId)

inductive Effect where
  | created (orderId : String) (record : OrderRecord)
  | patched (orderId : String) (before : OrderRecord) (payload : OrderUpdate) (now : UtcNow)
  | deleted (orderId : String) (before : OrderRecord)

namespace Effect

def orderId : Effect → String
  | .created orderId _ | .patched orderId _ _ _ | .deleted orderId _ => orderId

def before : Effect → Option OrderRecord
  | .created _ _ => none
  | .patched _ before _ _ | .deleted _ before => some before

def after : Effect → Option OrderRecord
  | .created _ record => some record
  | .patched _ before payload now => some (before.patched payload now)
  | .deleted _ _ => none

def apply (effect : Effect) (table : OrderTable) : OrderTable :=
  match effect.after with
  | none => table.erase effect.orderId
  | some record => table.set effect.orderId record

def write : Effect → Write
  | .created orderId record => .insert orderId (record.toDoc orderId)
  | .patched orderId before payload now =>
      .update orderId ((before.patched payload now).toDoc orderId)
  | .deleted orderId _ => .delete orderId

end Effect

namespace OrderTable

def afterAll (table : OrderTable) (effects : List Effect) : OrderTable :=
  effects.foldl (fun table effect => effect.apply table) table

def effect? (table : OrderTable) : OrdersAction → Option Effect
  | .createOrder payload hex now =>
      let orderId := "ord_" ++ hex
      if table.contains orderId then none else some (.created orderId (payload.record now))
  | .updateOrder _ orderId payload now =>
      (table.get? orderId).bind fun before =>
        if payload.updates.isEmpty ∨ before.patched payload now = before then none
        else some (.patched orderId before payload now)
  | .findUpdated _ => none
  | .deleteOrder orderId => (table.get? orderId).map (.deleted orderId)

def effects (table : OrderTable) : List OrdersAction → List Effect
  | [] => []
  | action :: rest =>
      let effect := (table.effect? action).toList
      effect ++ (table.afterAll effect).effects rest

end OrderTable

@[simp] theorem Effect.orderId_write (effect : Effect) :
    effect.write.orderId = effect.orderId := by
  cases effect <;> rfl

theorem Effect.result_write (effect : Effect) :
    effect.write.result = effect.after.map (OrderRecord.toDoc effect.orderId) := by
  cases effect <;> rfl

@[simp] theorem Effect.get?_apply_self (effect : Effect) (table : OrderTable) :
    (effect.apply table).get? effect.orderId = effect.after := by
  unfold apply
  cases effect.after <;> simp

@[simp] theorem Effect.get?_apply_of_ne (effect : Effect) (table : OrderTable)
    {orderId : String} (ne : orderId ≠ effect.orderId) :
    (effect.apply table).get? orderId = table.get? orderId := by
  unfold apply
  cases effect.after <;> simp [ne]

theorem OrderTable.Shows.apply {table : OrderTable} {orders : Orders}
    (shows : table.Shows orders) (effect : Effect) :
    (effect.apply table).Shows (effect.write.apply orders) := by
  intro orderId
  by_cases same : orderId = effect.orderId
  · subst same
    rw [Effect.get?_apply_self, ← Effect.result_write, ← effect.orderId_write,
      Write.get?_apply_self]
  · rw [Effect.get?_apply_of_ne _ _ same, ← shows orderId, Write.get?_apply_of_ne]
    rwa [Effect.orderId_write]

theorem OrderTable.Shows.contains {table : OrderTable} {orders : Orders}
    (shows : table.Shows orders) (orderId : String) :
    orders.contains orderId = table.contains orderId := by
  rw [PyDict.contains, shows, Option.isSome_map, PyDict.contains]

namespace OrdersApi

variable {state next finish : OrdersApi} {table : OrderTable}

structure Holds (state : OrdersApi) (table : OrderTable) (effects : List Effect)
    (next : OrdersApi) : Prop where
  writes : next.writes = state.writes ++ effects.map Effect.write
  shows : (table.afterAll effects).Shows next.orders

theorem Holds.quiet (shows : table.Shows state.orders) (writes : next.writes = state.writes)
    (orders : next.orders = state.orders) : state.Holds table [] next := by
  refine ⟨?_, ?_⟩
  · rw [List.map_nil, List.append_nil, writes]
  · rw [orders]
    exact shows

theorem Holds.performed (shows : table.Shows state.orders) (effect : Effect)
    (writes : next.writes = (state.perform effect.write).writes)
    (orders : next.orders = (state.perform effect.write).orders) :
    state.Holds table [effect] next := by
  refine ⟨writes, ?_⟩
  rw [orders]
  exact shows.apply effect

theorem createOrder_holds (shows : table.Shows state.orders) (payload : OrderCreate)
    (hex : String) (now : UtcNow) :
    state.Holds table (table.effect? (.createOrder payload hex now)).toList
      (state.createOrder payload hex now) := by
  simp only [createOrder, createDoc_stored, OrderTable.effect?, shows.contains]
  split
  · exact .quiet shows rfl rfl
  · exact .performed shows (.created _ _) rfl rfl

theorem updateOrder_holds (shows : table.Shows state.orders) (request : Nat)
    (orderId : String) (payload : OrderUpdate) (now : UtcNow) :
    state.Holds table (table.effect? (.updateOrder request orderId payload now)).toList
      (state.updateOrder request orderId payload now) := by
  simp only [updateOrder, OrderTable.effect?, shows orderId]
  cases table.get? orderId with
  | none => split <;> exact .quiet shows rfl rfl
  | some before =>
      simp only [Option.map_some, Option.bind_some]
      by_cases empty : payload.updates.isEmpty = true
      · rw [if_pos empty, if_pos (Or.inl empty)]
        exact .quiet shows rfl rfl
      · rw [if_neg empty, updateOne]
        by_cases same : before.patched payload now = before
        · rw [if_pos (Or.inr same), if_pos ((unmodified_toDoc _ _ _ _).mpr same)]
          exact .quiet shows rfl rfl
        · rw [if_neg (not_or.mpr ⟨empty, same⟩),
            if_neg (mt (unmodified_toDoc _ _ _ _).mp same), OrderRecord.toDoc_patched]
          exact .performed shows (.patched orderId before payload now) rfl rfl

theorem deleteOrder_holds (shows : table.Shows state.orders) (orderId : String) :
    state.Holds table (table.effect? (.deleteOrder orderId)).toList
      (state.deleteOrder orderId) := by
  rw [deleteOrder, shows.contains]
  cases found : table.get? orderId with
  | none =>
      simp only [OrderTable.effect?, PyDict.contains, found]
      exact .quiet shows rfl rfl
  | some before =>
      simp only [OrderTable.effect?, PyDict.contains, found]
      exact .performed shows (.deleted orderId before) rfl rfl

theorem step_holds (shows : table.Shows state.orders) {action : OrdersAction}
    (stepped : step state action = some next) :
    state.Holds table (table.effect? action).toList next := by
  cases action with
  | createOrder payload hex now =>
      cases stepped
      exact createOrder_holds shows payload hex now
  | updateOrder request orderId payload now =>
      simp only [step] at stepped
      split at stepped
      · cases stepped
      · cases stepped
        exact updateOrder_holds shows request orderId payload now
  | findUpdated request =>
      obtain ⟨orderId, -, rfl⟩ := Option.map_eq_some_iff.mp stepped
      exact .quiet shows rfl rfl
  | deleteOrder orderId =>
      cases stepped
      exact deleteOrder_holds shows orderId

theorem run_holds {actions : List OrdersAction} (shows : table.Shows state.orders)
    (reached : exec step state actions = some finish) :
    state.Holds table (table.effects actions) finish := by
  induction actions generalizing state table with
  | nil =>
      cases reached
      exact .quiet shows rfl rfl
  | cons action rest ih =>
      obtain ⟨next, stepped, after⟩ := Option.bind_eq_some_iff.mp reached
      have first := step_holds shows stepped
      have others := ih first.shows after
      refine ⟨?_, ?_⟩
      · rw [others.writes, first.writes, List.append_assoc, ← List.map_append]
        rfl
      · have whole := others.shows
        unfold OrderTable.afterAll at whole ⊢
        rw [OrderTable.effects, List.foldl_append]
        exact whole

end OrdersApi

/-- Each effect finds the table as the effect expects it. -/
def OrderTable.Fit (table : OrderTable) : List Effect → Prop
  | [] => True
  | effect :: rest =>
      table.get? effect.orderId = effect.before ∧ (effect.apply table).Fit rest

theorem OrderTable.fit_append {table : OrderTable} {first second : List Effect} :
    table.Fit (first ++ second) ↔ table.Fit first ∧ (table.afterAll first).Fit second := by
  induction first generalizing table with
  | nil => exact (and_iff_right trivial).symm
  | cons effect first ih =>
      rw [List.cons_append, Fit, Fit, ih, and_assoc]
      rfl

theorem OrderTable.effect?_fits {table : OrderTable} {action : OrdersAction} {effect : Effect}
    (found : table.effect? action = some effect) :
    table.get? effect.orderId = effect.before := by
  cases action with
  | createOrder payload hex now =>
      simp only [effect?] at found
      split at found
      · cases found
      · rename_i absent
        cases found
        exact Option.not_isSome_iff_eq_none.mp absent
  | updateOrder request orderId payload now =>
      obtain ⟨before, stored, given⟩ := Option.bind_eq_some_iff.mp found
      split at given
      · cases given
      · cases given
        exact stored
  | findUpdated request => cases found
  | deleteOrder orderId =>
      obtain ⟨before, stored, rfl⟩ := Option.map_eq_some_iff.mp found
      exact stored

theorem OrderTable.fit_effects (table : OrderTable) (actions : List OrdersAction) :
    table.Fit (table.effects actions) := by
  induction actions generalizing table with
  | nil => trivial
  | cons action rest ih =>
      refine OrderTable.fit_append.mpr ⟨?_, ih _⟩
      cases found : table.effect? action with
      | none => trivial
      | some effect => exact ⟨OrderTable.effect?_fits found, trivial⟩

theorem OrderTable.validWrites {table : OrderTable} {orders : Orders} {effects : List Effect}
    (shows : table.Shows orders) (fit : table.Fit effects) :
    ValidWrites orders (effects.map Effect.write) := by
  induction effects generalizing table orders with
  | nil => trivial
  | cons effect rest ih =>
      refine ⟨?_, ih (shows.apply effect) fit.2⟩
      have stored := shows effect.orderId
      rw [fit.1] at stored
      cases effect with
      | created orderId record =>
          change orders.get? orderId = none at stored
          simp only [Effect.write, Write.Valid, stored]
          rfl
      | patched orderId before payload now | deleted orderId before =>
          change orders.get? orderId = some _ at stored
          simp only [Effect.write, Write.Valid, stored]
          rfl

/-- What an order keeps as long as it is not deleted. -/
structure OrderRecord.Becomes (before after : OrderRecord) : Prop where
  createdAt : after.createdAt = before.createdAt
  price : before.price.isSome = true → after.price.isSome = true
  algoId : before.algoId.isSome = true → after.algoId.isSome = true
  brokerId : before.brokerId.isSome = true → after.brokerId.isSome = true

theorem OrderRecord.Becomes.refl (record : OrderRecord) : record.Becomes record :=
  ⟨rfl, id, id, id⟩

theorem OrderRecord.Becomes.trans {first second third : OrderRecord}
    (left : first.Becomes second) (right : second.Becomes third) : first.Becomes third :=
  ⟨right.createdAt.trans left.createdAt, right.price ∘ left.price,
    right.algoId ∘ left.algoId, right.brokerId ∘ left.brokerId⟩

theorem OrderRecord.becomes_patched (record : OrderRecord) (payload : OrderUpdate)
    (now : UtcNow) : record.Becomes (record.patched payload now) := by
  refine ⟨rfl, ?_, ?_, ?_⟩ <;> intro given <;> simp [patched, given]

theorem OrderTable.becomes_afterAll {table : OrderTable} {effects : List Effect}
    (fit : table.Fit effects) {orderId : String} {before after : OrderRecord}
    (first : table.get? orderId = some before)
    (last : (table.afterAll effects).get? orderId = some after)
    (kept : ∀ effect ∈ effects, effect.orderId = orderId → effect.after ≠ none) :
    before.Becomes after := by
  induction effects generalizing table before with
  | nil =>
      cases first.symm.trans last
      exact .refl _
  | cons effect rest ih =>
      rw [List.forall_mem_cons] at kept
      by_cases same : orderId = effect.orderId
      · subst same
        have found := fit.1
        rw [first] at found
        cases effect with
        | created _ _ => cases found
        | deleted _ _ => exact absurd rfl (kept.1 rfl)
        | patched orderId old payload now =>
            cases found
            have patched : (Effect.apply (.patched orderId before payload now) table).get? orderId =
                some (before.patched payload now) :=
              Effect.get?_apply_self (.patched orderId before payload now) table
            exact (before.becomes_patched payload now).trans (ih fit.2 patched last kept.2)
      · refine ih fit.2 ?_ last kept.2
        rw [Effect.get?_apply_of_ne _ _ same, first]

namespace OrdersApi

/-- Whatever the interleaving, the requests are those of a table of records: the writes
are its effects, the collection shows it, and an order keeps its creation time and the
fields that were given, until it is deleted. -/
theorem runs_on_records {state finish : OrdersApi} {table : OrderTable}
    {actions : List OrdersAction} (shows : table.Shows state.orders)
    (reached : exec step state actions = some finish) :
    finish.writes = state.writes ++ (table.effects actions).map Effect.write ∧
      ValidWrites state.orders ((table.effects actions).map Effect.write) ∧
      (table.afterAll (table.effects actions)).Shows finish.orders ∧
      ∀ orderId before after, table.get? orderId = some before →
        (table.afterAll (table.effects actions)).get? orderId = some after →
          (.delete orderId) ∉ (table.effects actions).map Effect.write →
            before.Becomes after := by
  have holds := run_holds shows reached
  have fit := table.fit_effects actions
  refine ⟨holds.writes, OrderTable.validWrites shows fit, holds.shows, ?_⟩
  intro orderId before after first last kept
  refine OrderTable.becomes_afterAll fit first last ?_
  intro effect member named gone
  apply kept
  refine List.mem_map.mpr ⟨effect, member, ?_⟩
  cases effect with
  | created _ _ | patched _ _ _ _ => cases gone
  | deleted other _ => rw [← named]; rfl

def sampleNow : UtcNow := ⟨⟨2025, 1, 1⟩, 0, 0, 0, 1500⟩

def sampleRecord : OrderRecord :=
  OrderCreate.record { customerName := "Rahul Sharma", productName := "ITC 480 FUT" } sampleNow

def sampleTable : OrderTable := (∅ : OrderTable).set "ord_0" sampleRecord

def sampleCollection : Orders := (∅ : Orders).set "ord_0" (sampleRecord.toDoc "ord_0")

theorem sampleTable_shows : sampleTable.Shows sampleCollection := by
  intro orderId
  unfold sampleTable sampleCollection
  rw [PyDict.get?_set, PyDict.get?_set]
  split
  · rename_i same
    rw [same]
    rfl
  · rfl

def sampleRequests : List OrdersAction :=
  [.createOrder { customerName := "Priya Krishnan", productName := "SBIN 820 CE" } "1" sampleNow,
    .updateOrder 0 "ord_1" { status := some .cancelled } sampleNow,
    .updateOrder 1 "ord_0" { algoId := some "APT-VWAP-SCALP" } sampleNow,
    .deleteOrder "ord_1",
    .findUpdated 0]

theorem runs_on_records_of_sample :
    ∃ finish, exec step { orders := sampleCollection } sampleRequests = some finish ∧
      finish.writes = [] ++ (sampleTable.effects sampleRequests).map Effect.write ∧
      ValidWrites sampleCollection ((sampleTable.effects sampleRequests).map Effect.write) ∧
      (sampleTable.afterAll (sampleTable.effects sampleRequests)).Shows finish.orders ∧
      ∀ orderId before after, sampleTable.get? orderId = some before →
        (sampleTable.afterAll (sampleTable.effects sampleRequests)).get? orderId =
          some after →
            (.delete orderId) ∉ (sampleTable.effects sampleRequests).map Effect.write →
              before.Becomes after := by
  have answered :
      (exec step { orders := sampleCollection } sampleRequests).isSome = true := by
    decide +kernel
  obtain ⟨finish, reached⟩ := Option.isSome_iff_exists.mp answered
  exact ⟨finish, reached, runs_on_records sampleTable_shows reached⟩

end OrdersApi

end OrderStream
