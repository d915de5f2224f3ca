import OrderStream.Value

namespace OrderStream

inductive OrderStatus where
  | pending
  | validating
  | shipped
  | delivered
  | cancelled
  deriving DecidableEq

def OrderStatus.value : OrderStatus → String
  | .pending => "pending"
  | .validating => "validating"
  | .shipped => "shipped"
  | .delivered => "delivered"
  | .cancelled => "cancelled"

structure OrderCreate where
  customerName : String
  productName : String
  status : OrderStatus := .pending
  price : Option PyFloat := none
  algoId : Option String := none
  brokerId : Option String := none

structure OrderUpdate where
  customerName : Option String := none
  productName : Option String := none
  status : Option OrderStatus := none
  price : Option PyFloat := none
  algoId : Option String := none
  brokerId : Option String := none

inductive Intent where
  | newOrder
  | statusChange
  | cancellation
  | priceCorrection
  | deletion
  | other
  deriving DecidableEq

def Intent.value : Intent → String
  | .newOrder => "new_order"
  | .statusChange => "status_change"
  | .cancellation => "cancellation"
  | .priceCorrection => "price_correction"
  | .deletion => "deletion"
  | .other => "other"

inductive Priority where
  | urgent
  | normal
  | low
  deriving DecidableEq

def Priority.value : Priority → String
  | .urgent => "urgent"
  | .normal => "normal"
  | .low => "low"

def intentPriority : Intent → Priority
  | .cancellation => .urgent
  | .newOrder => .urgent
  | .deletion => .urgent
  | .statusChange => .normal
  | .priceCorrection => .low
  | .other => .normal

inductive Op where
  | insert
  | update
  | delete
  | replace
  deriving DecidableEq

def Op.value : Op → String
  | .insert => "insert"
  | .update => "update"
  | .delete => "delete"
  | .replace => "replace"

structure DiffEntry where
  field : String
  before : Value
  after : Value

/-- `entry.model_dump()` -/
def DiffEntry.modelDump (entry : DiffEntry) : Value :=
  .dict [("field", .str entry.field), ("before", entry.before), ("after", entry.after)]

structure Event where
  eventId : String
  seq : Int
  schemaVersion : Int := 1
  op : Op
  intent : Intent
  priority : Priority
  orderId : String
  diff : List DiffEntry
  before : Option Doc := none
  after : Option Doc := none
  coalesced : Bool := false
  coalescedCount : Nat := 1
  resumeToken : Option Doc := none
  clusterTime : Option Doc := none
  ts : Temporal
  correlationId : Option String := none
  prevHash : String
  hash : String

def sampleTime : Temporal := .datetime ⟨2025, 1, 1⟩ ⟨0, 0, 0, 0, some 0⟩

end OrderStream
