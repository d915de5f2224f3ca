import OrderStream.Diff

namespace OrderStream

def intentOf (op : Op) (before after : Option Doc) (diff : List DiffEntry) : Intent :=
  match op with
  | .insert => .newOrder
  | .delete => .deletion
  | .update | .replace =>
      let changedFields := diff.map DiffEntry.field
      let newStatus := Doc.getOr after "status"
      let oldStatus := Doc.getOr before "status"
      if changedFields.contains "status" && newStatus.pyEq (.str "cancelled") &&
          !oldStatus.pyEq (.str "cancelled") then
        .cancellation
      else if changedFields.contains "status" then .statusChange
      else if changedFields.contains "price" then .priceCorrection
      else .other

def classify (op : Op) (before after : Option Doc) (diff : List DiffEntry) :
    Intent × Priority :=
  let intent := intentOf op before after diff
  (intent, intentPriority intent)

def sampleOrder (status : String) (price : Int) : Doc :=
  .ofList [("status", .str status), ("price", .int price)]

def sampleUpdate (seq : Int) (before after : Doc) : Event :=
  let diff := computeDiff (some before) (some after)
  let (intent, priority) := classify .update (some before) (some after) diff
  { eventId := "event", seq, op := .update, intent, priority, orderId := "1", diff
    before := some before, after := some after, ts := sampleTime, prevHash := "", hash := "" }

end OrderStream
