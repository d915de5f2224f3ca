import OrderStream.Watcher.AuditHistory

/-! The orders that the routes write: documents with the fields of a record. -/

namespace OrderStream

theorem OrderStatus.value_injective {left right : OrderStatus}
    (same : left.value = right.value) : left = right := by
  cases left <;> cases right <;> first | rfl | exact absurd same (by decide)

/-- `datetime.now(timezone.utc)` -/
structure UtcNow where
  day : CivilDate
  hour : Nat
  minute : Nat
  second : Nat
  microsecond : Nat
  deriving DecidableEq

def UtcNow.aware (now : UtcNow) : Temporal :=
  .datetime now.day
    { hour := now.hour, minute := now.minute, second := now.second
      microsecond := now.microsecond, utcOffset := some 0 }

/-- A BSON date counts milliseconds, and is read back without a zone. -/
def UtcNow.stored (now : UtcNow) : Temporal :=
  .datetime now.day
    { hour := now.hour, minute := now.minute, second := now.second
      microsecond := now.microsecond / 1000 * 1000 }

def floatValue (value : Option PyFloat) : Value := (value.map Value.float).getD .null

def strValue (value : Option String) : Value := (value.map Value.str).getD .null

def orderFields : List String :=
  ["_id", "customer_name", "product_name", "status", "price", "algo_id", "broker_id",
    "created_at", "updated_at"]

theorem nodup_orderFields : orderFields.Nodup := by decide

/-- The document of `create_order`, its dates as they are in memory or as they are
stored. -/
def createDoc (payload : OrderCreate) (orderId : String) (now : Temporal) : Doc where
  entries :=
    [("_id", .str orderId),
      ("customer_name", .str payload.customerName),
      ("product_name", .str payload.productName),
      ("status", .str payload.status.value),
      ("price", floatValue payload.price),
      ("algo_id", strValue payload.algoId),
      ("broker_id", strValue payload.brokerId),
      ("created_at", .temporal now),
      ("updated_at", .temporal now)]
  nodup := nodup_orderFields

/-- `payload.model_dump()`, the status by its value -/
def OrderUpdate.modelDump (payload : OrderUpdate) : List (String × Option Value) :=
  [("customer_name", payload.customerName.map Value.str),
    ("product_name", payload.productName.map Value.str),
    ("status", payload.status.map fun status => .str status.value),
    ("price", payload.price.map Value.float),
    ("algo_id", payload.algoId.map Value.str),
    ("broker_id", payload.brokerId.map Value.str)]

/-- `exclude_none=True` -/
def excludeNone (fields : List (String × Option Value)) : List (String × Value) :=
  fields.filterMap fun field => field.2.map fun value => (field.1, value)

def OrderUpdate.updates (payload : OrderUpdate) : List (String × Value) :=
  excludeNone payload.modelDump

def OrderUpdate.setFields (payload : OrderUpdate) (now : UtcNow) : List (String × Value) :=
  payload.updates ++ [("updated_at", .temporal now.stored)]

structure OrderRecord where
  customerName : String
  productName : String
  status : OrderStatus
  price : Option PyFloat
  algoId : Option String
  brokerId : Option String
  createdAt : Temporal
  updatedAt : Temporal
  deriving DecidableEq

def OrderCreate.record (payload : OrderCreate) (now : UtcNow) : OrderRecord where
  customerName := payload.customerName
  productName := payload.productName
  status := payload.status
  price := payload.price
  algoId := payload.algoId
  brokerId := payload.brokerId
  createdAt := now.stored
  updatedAt := now.stored

def OrderRecord.patched (record : OrderRecord) (payload : OrderUpdate) (now : UtcNow) :
    OrderRecord where
  customerName := payload.customerName.getD record.customerName
  productName := payload.productName.getD record.productName
  status := payload.status.getD record.status
  price := payload.price.or record.price
  algoId := payload.algoId.or record.algoId
  brokerId := payload.brokerId.or record.brokerId
  createdAt := record.createdAt
  updatedAt := now.stored

def OrderRecord.toDoc (orderId : String) (record : OrderRecord) : Doc where
  entries :=
    [("_id", .str orderId),
      ("customer_name", .str record.customerName),
      ("product_name", .str record.productName),
      ("status", .str record.status.value),
      ("price", floatValue record.price),
      ("algo_id", strValue record.algoId),
      ("broker_id", strValue record.brokerId),
      ("created_at", .temporal record.createdAt),
      ("updated_at", .temporal record.updatedAt)]
  nodup := nodup_orderFields

theorem createDoc_stored (payload : OrderCreate) (orderId : String) (now : UtcNow) :
    createDoc payload orderId now.stored = (payload.record now).toDoc orderId := rfl

def setGiven (doc : Doc) (field : String × Option Value) : Doc :=
  match field.2 with
  | some value => doc.set field.1 value
  | none => doc

theorem update_excludeNone (fields : List (String × Option Value)) (doc : Doc) :
    doc.update (excludeNone fields) = fields.foldl setGiven doc := by
  induction fields generalizing doc with
  | nil => rfl
  | cons field fields ih =>
      obtain ⟨name, given⟩ := field
      cases given with
      | none => exact ih doc
      | some value => exact ih (doc.set name value)

theorem OrderRecord.toDoc_patched (record : OrderRecord) (orderId : String)
    (payload : OrderUpdate) (now : UtcNow) :
    (record.toDoc orderId).update (payload.setFields now) =
      (record.patched payload now).toDoc orderId := by
  have customer (record : OrderRecord) :
      setGiven (record.toDoc orderId) ("customer_name", payload.customerName.map Value.str) =
        ({ record with
          customerName := payload.customerName.getD record.customerName }).toDoc orderId := by
    cases payload.customerName <;> rfl
  have product (record : OrderRecord) :
      setGiven (record.toDoc orderId) ("product_name", payload.productName.map Value.str) =
        ({ record with
          productName := payload.productName.getD record.productName }).toDoc orderId := by
    cases payload.productName <;> rfl
  have status (record : OrderRecord) :
      setGiven (record.toDoc orderId)
          ("status", payload.status.map fun status => Value.str status.value) =
        ({ record with status := payload.status.getD record.status }).toDoc orderId := by
    cases payload.status <;> rfl
  have price (record : OrderRecord) :
      setGiven (record.toDoc orderId) ("price", payload.price.map Value.float) =
        ({ record with price := payload.price.or record.price }).toDoc orderId := by
    cases payload.price <;> rfl
  have algo (record : OrderRecord) :
      setGiven (record.toDoc orderId) ("algo_id", payload.algoId.map Value.str) =
        ({ record with algoId := payload.algoId.or record.algoId }).toDoc orderId := by
    cases payload.algoId <;> rfl
  have broker (record : OrderRecord) :
      setGiven (record.toDoc orderId) ("broker_id", payload.brokerId.map Value.str) =
        ({ record with brokerId := payload.brokerId.or record.brokerId }).toDoc orderId := by
    cases payload.brokerId <;> rfl
  rw [OrderUpdate.setFields, PyDict.update_append, OrderUpdate.updates, update_excludeNone,
    OrderUpdate.modelDump]
  simp only [List.foldl_cons, List.foldl_nil, customer, product, status, price, algo, broker]
  rfl

def Value.isSet : Value → Value → Bool
  | .str stored, .str value => decide (stored = value)
  | .float stored, .float value => decide (stored = value)
  | .temporal stored, .temporal value => decide (stored = value)
  | _, _ => false

/-- The server has nothing to do when all fields have their values already. -/
def unmodified (doc : Doc) (updates : List (String × Value)) : Bool :=
  updates.all fun field => (doc.get? field.1).any fun stored => stored.isSet field.2

theorem Value.eq_of_isSet {stored value : Value} (same : stored.isSet value = true) :
    stored = value := by
  unfold Value.isSet at same
  split at same <;> simp_all

theorem update_of_unmodified {doc : Doc} {updates : List (String × Value)}
    (same : unmodified doc updates = true) : doc.update updates = doc := by
  induction updates with
  | nil => rfl
  | cons field updates ih =>
      rw [unmodified, List.all_cons, Bool.and_eq_true, Option.any_eq_true] at same
      obtain ⟨⟨stored, found, equal⟩, rest⟩ := same
      rw [Value.eq_of_isSet equal] at found
      rw [PyDict.update, List.foldl_cons, PyDict.set_of_get? found]
      exact ih rest

theorem unmodified_iff {doc : Doc} {updates : List (String × Value)}
    (nodup : (updates.map Prod.fst).Nodup)
    (plain : ∀ field ∈ updates, field.2.isSet field.2 = true) :
    unmodified doc updates = true ↔ doc.update updates = doc := by
  constructor
  · exact update_of_unmodified
  · intro same
    rw [unmodified, List.all_eq_true]
    intro field member
    have found : doc.get? field.1 = some field.2 := by
      rw [← same, PyDict.get?_update _ nodup,
        (PyDict.lookup_eq_some_iff_mem nodup).mpr member]
      rfl
    rw [found]
    exact plain field member

theorem excludeNone_names (fields : List (String × Option Value)) :
    ((excludeNone fields).map Prod.fst).Sublist (fields.map Prod.fst) := by
  induction fields with
  | nil => exact List.Sublist.refl _
  | cons field fields ih =>
      obtain ⟨name, given⟩ := field
      cases given with
      | none => exact ih.cons name
      | some _ => exact ih.cons_cons name

theorem OrderUpdate.modelDump_names (payload : OrderUpdate) :
    payload.modelDump.map Prod.fst =
      ["customer_name", "product_name", "status", "price", "algo_id", "broker_id"] :=
  rfl

theorem OrderUpdate.nodup_setFields (payload : OrderUpdate) (now : UtcNow) :
    ((payload.setFields now).map Prod.fst).Nodup := by
  have names := (excludeNone_names payload.modelDump).append (List.Sublist.refl ["updated_at"])
  rw [payload.modelDump_names] at names
  rw [setFields, List.map_append]
  exact List.Nodup.sublist names (by decide)

theorem lookup_excludeNone {fields : List (String × Option Value)}
    (nodup : (fields.map Prod.fst).Nodup) (name : String) :
    (excludeNone fields).lookup name = (fields.lookup name).join := by
  induction fields with
  | nil => rfl
  | cons field fields ih =>
      obtain ⟨other, given⟩ := field
      rw [List.map_cons, List.nodup_cons] at nodup
      rw [PyDict.lookup_cons_ite]
      cases given with
      | none =>
          change (excludeNone fields).lookup name = _
          rw [ih nodup.2]
          split
          · rename_i same
            rw [same, PyDict.lookup_eq_none.mpr nodup.1]
            rfl
          · rfl
      | some value =>
          change ((other, value) :: excludeNone fields).lookup name = _
          rw [PyDict.lookup_cons_ite, ih nodup.2]
          split <;> rfl

theorem OrderUpdate.lookup_updates (payload : OrderUpdate) (name : String) :
    payload.updates.lookup name = (payload.modelDump.lookup name).join := by
  apply lookup_excludeNone
  rw [payload.modelDump_names]
  decide

theorem OrderUpdate.lookup_price (payload : OrderUpdate) :
    payload.updates.lookup "price" = payload.price.map Value.float :=
  payload.lookup_updates "price"

theorem OrderUpdate.lookup_status (payload : OrderUpdate) :
    payload.updates.lookup "status" = payload.status.map fun status => .str status.value :=
  payload.lookup_updates "status"

theorem OrderUpdate.nodup_updates (payload : OrderUpdate) :
    (payload.updates.map Prod.fst).Nodup := by
  have names := excludeNone_names payload.modelDump
  rw [payload.modelDump_names] at names
  exact List.Nodup.sublist names (by decide)

theorem OrderUpdate.compared_of_lookup {payload : OrderUpdate} {name : String} {value : Value}
    (given : payload.updates.lookup name = some value) : isIgnored name = false := by
  have member := (PyDict.lookup_eq_some_iff_mem payload.nodup_updates).mp given
  have named := (excludeNone_names payload.modelDump).subset
    (List.mem_map.mpr ⟨(name, value), member, rfl⟩)
  rw [payload.modelDump_names] at named
  have all : ∀ field ∈ ["customer_name", "product_name", "status", "price", "algo_id",
      "broker_id"], isIgnored field = false := by
    decide
  exact all name named

theorem OrderUpdate.plain_setFields (payload : OrderUpdate) (now : UtcNow) :
    ∀ field ∈ payload.setFields now, field.2.isSet field.2 = true := by
  intro field member
  rw [setFields, List.mem_append] at member
  rcases member with given | time
  · obtain ⟨known, listed, found⟩ := List.mem_filterMap.mp given
    obtain ⟨value, present, rfl⟩ := Option.map_eq_some_iff.mp found
    simp only [modelDump, List.mem_cons, List.not_mem_nil, or_false] at listed
    rcases listed with rfl | rfl | rfl | rfl | rfl | rfl <;>
      obtain ⟨source, -, rfl⟩ := Option.map_eq_some_iff.mp present <;>
        exact decide_eq_true rfl
  · rw [List.mem_singleton.mp time]
    exact decide_eq_true rfl

theorem floatValue_injective : Function.Injective floatValue := by
  intro left right same
  cases left <;> cases right <;> simp_all [floatValue]

theorem strValue_injective : Function.Injective strValue := by
  intro left right same
  cases left <;> cases right <;> simp_all [strValue]

theorem OrderRecord.toDoc_injective (orderId : String) :
    Function.Injective (OrderRecord.toDoc orderId) := by
  intro left right same
  have entries := congrArg PyDict.entries same
  simp only [toDoc, List.cons.injEq, Prod.mk.injEq, true_and, Value.str.injEq,
    Value.temporal.injEq, and_true] at entries
  obtain ⟨customer, product, status, price, algo, broker, created, updated⟩ := entries
  cases left
  cases right
  rw [OrderRecord.mk.injEq]
  exact ⟨customer, product, OrderStatus.value_injective status, floatValue_injective price,
    strValue_injective algo, strValue_injective broker, created, updated⟩

theorem unmodified_toDoc (record : OrderRecord) (orderId : String) (payload : OrderUpdate)
    (now : UtcNow) :
    unmodified (record.toDoc orderId) (payload.setFields now) = true ↔
      record.patched payload now = record := by
  rw [unmodified_iff (payload.nodup_setFields now) (payload.plain_setFields now),
    OrderRecord.toDoc_patched]
  exact (OrderRecord.toDoc_injective orderId).eq_iff

end OrderStream
