import OrderStream.Intent
import OrderStream.NetChange
import OrderStream.Spine.EventSpine

namespace OrderStream

inductive OperationType where
  | insert
  | update
  | replace
  | delete
  | invalidate
  | other (name : String)
  deriving DecidableEq

def OperationType.op? : OperationType → Option Op
  | .insert => some .insert
  | .update => some .update
  | .replace => some .replace
  | .delete => some .delete
  | .invalidate | .other _ => none

/-- A `clusterTime` with or without the fields of a BSON timestamp. -/
inductive ClusterTime where
  | timestamp (time inc : Int)
  | raw (text : String)

/-- A change document.  `orderId` is `str(documentKey["_id"])`. -/
structure Change where
  operationType : OperationType
  orderId : String
  fullDocument : Option Doc := none
  resumeToken : Option Doc := none
  clusterTime : Option ClusterTime := none

/-- Orders by id: the collection, or the before-image cache of the watcher. -/
abbrev Orders := PyDict String Doc

namespace Watcher

def strip (doc : Doc) : Doc := doc.filterKeys fun key => decide (key ≠ "_id")

def clusterTime : Option ClusterTime → Option Doc
  | none => none
  | some (.timestamp time inc) => some (.ofList [("time", .int time), ("inc", .int inc)])
  | some (.raw text) => some (.ofList [("raw", .str text)])

def before (cache : Orders) (op : Op) (orderId : String) : Option Doc :=
  match op with
  | .insert => none
  | .update | .replace | .delete => cache.get? orderId

/-- The document after the change; `none` where `_process` returns for the lack of a
`fullDocument`. -/
def after (op : Op) (fullDocument : Option Doc) : Option (Option Doc) :=
  match op with
  | .delete => some none
  | .insert | .update | .replace => fullDocument.map fun doc => some (strip doc)

def eventArgs (cache : Orders) (change : Change) (op : Op) (after : Option Doc)
    (correlationId : String) : AppendArgs :=
  let before := before cache op change.orderId
  let diff := computeDiff before after
  let classified := classify op before after diff
  { op, intent := classified.1, priority := classified.2, orderId := change.orderId
    diff, before, after
    resumeToken := change.resumeToken
    clusterTime := clusterTime change.clusterTime
    correlationId := some correlationId }

/-- What `_process` appends, if it comes that far. -/
def appendArgs (cache : Orders) (change : Change) (op : Op) (correlationId : String) :
    Option AppendArgs :=
  match after op change.fullDocument with
  | none => none
  | some after =>
      let args := eventArgs cache change op after correlationId
      if args.diff.isEmpty ∧ op = .update then none else some args

/-- `_process` up to its `append`. -/
def prepare (cache : Orders) (change : Change) (correlationId : String) :
    Except PyError (Option AppendArgs) :=
  match change.operationType with
  | .invalidate => .error (.pyMongoError "invalidated")
  | operation =>
      match operation.op? with
      | none => .ok none
      | some op => .ok (appendArgs cache change op correlationId)

def remember (cache : Orders) (args : AppendArgs) : Orders :=
  match args.after with
  | none => cache.erase args.orderId
  | some after => cache.set args.orderId after

@[simp] theorem get?_remember_self (cache : Orders) (args : AppendArgs) :
    (remember cache args).get? args.orderId = args.after := by
  unfold remember
  cases args.after <;> simp

@[simp] theorem get?_remember_of_ne (cache : Orders) (args : AppendArgs) {orderId : String}
    (ne : orderId ≠ args.orderId) :
    (remember cache args).get? orderId = cache.get? orderId := by
  unfold remember
  cases args.after <;> simp [ne]

theorem appendArgs_of_after {cache : Orders} {change : Change} {op : Op}
    {correlationId : String} {found : Option Doc}
    (sees : after op change.fullDocument = some found) :
    appendArgs cache change op correlationId =
      if (eventArgs cache change op found correlationId).diff.isEmpty ∧ op = .update then none
      else some (eventArgs cache change op found correlationId) := by
  rw [appendArgs, sees]

theorem appendArgs_of_unseen {cache : Orders} {change : Change} {op : Op}
    {correlationId : String} (unseen : after op change.fullDocument = none) :
    appendArgs cache change op correlationId = none := by
  rw [appendArgs, unseen]

theorem appendArgs_eq_some {cache : Orders} {change : Change} {op : Op}
    {correlationId : String} {args : AppendArgs}
    (prepared : appendArgs cache change op correlationId = some args) :
    ∃ found, after op change.fullDocument = some found ∧
      args = eventArgs cache change op found correlationId := by
  cases sees : after op change.fullDocument with
  | none =>
      rw [appendArgs_of_unseen sees] at prepared
      cases prepared
  | some found =>
      rw [appendArgs_of_after sees] at prepared
      split at prepared
      · cases prepared
      · exact ⟨found, rfl, (Option.some.inj prepared).symm⟩

/-- Only an update passes without an event. -/
theorem appendArgs_eq_none {cache : Orders} {change : Change} {op : Op}
    {correlationId : String} (quiet : appendArgs cache change op correlationId = none) :
    after op change.fullDocument = none ∨
      op = .update ∧ ∃ found, after op change.fullDocument = some found ∧
        computeDiff (cache.get? change.orderId) found = [] := by
  cases sees : after op change.fullDocument with
  | none => exact Or.inl rfl
  | some found =>
      rw [appendArgs_of_after sees] at quiet
      split at quiet
      · rename_i unchanged
        obtain ⟨empty, rfl⟩ := unchanged
        exact Or.inr ⟨rfl, found, rfl, List.isEmpty_iff.mp empty⟩
      · cases quiet

theorem prepare_eq_some {cache : Orders} {change : Change} {correlationId : String}
    {args : AppendArgs} (prepared : prepare cache change correlationId = .ok (some args)) :
    ∃ op, appendArgs cache change op correlationId = some args := by
  unfold prepare at prepared
  split at prepared
  · cases prepared
  · split at prepared
    · cases prepared
    · exact ⟨_, Except.ok.inj prepared⟩

/-- What `_reconcile_or_reset` appends for an order that it finds again. -/
def reconciliationArgs (cache : Orders) (orderId : String) : Option AppendArgs :=
  (cache.get? orderId).map fun doc =>
    { op := .insert, intent := .newOrder, priority := .urgent, orderId
      diff := computeDiff none (some doc), before := none, after := some doc
      resumeToken := none, clusterTime := none
      correlationId := some "reconciliation" }

end Watcher

structure Stamp where
  eventId : String
  ts : Temporal
  seq : Int
  prevHash : String

def Stamp.draft (stamp : Stamp) (args : AppendArgs) : Draft where
  args := args
  eventId := stamp.eventId
  ts := stamp.ts
  seq := stamp.seq
  prevHash := stamp.prevHash

/-! Writes to the collection, and the changes that a stream delivers for them. -/

inductive Write where
  | insert (orderId : String) (doc : Doc)
  | update (orderId : String) (doc : Doc)
  | replace (orderId : String) (doc : Doc)
  | delete (orderId : String)

namespace Write

def orderId : Write → String
  | .insert orderId _ | .update orderId _ | .replace orderId _ | .delete orderId => orderId

def op : Write → Op
  | .insert _ _ => .insert
  | .update _ _ => .update
  | .replace _ _ => .replace
  | .delete _ => .delete

def operationType : Write → OperationType
  | .insert _ _ => .insert
  | .update _ _ => .update
  | .replace _ _ => .replace
  | .delete _ => .delete

def result : Write → Option Doc
  | .insert _ doc | .update _ doc | .replace _ doc => some doc
  | .delete _ => none

def apply (write : Write) (orders : Orders) : Orders :=
  match write.result with
  | none => orders.erase write.orderId
  | some doc => orders.set write.orderId doc

def Valid (write : Write) (orders : Orders) : Prop :=
  match write with
  | .insert orderId _ => (orders.get? orderId).isNone = true
  | .update orderId _ | .replace orderId _ | .delete orderId =>
      (orders.get? orderId).isSome = true

instance : ∀ (write : Write) (orders : Orders), Decidable (write.Valid orders)
  | .insert orderId _, orders =>
      inferInstanceAs (Decidable ((orders.get? orderId).isNone = true))
  | .update orderId _, orders | .replace orderId _, orders | .delete orderId, orders =>
      inferInstanceAs (Decidable ((orders.get? orderId).isSome = true))

/-- The change document of a write, where `lookup` is the document that `updateLookup`
finds for an update. -/
def change (write : Write) (lookup : Option Doc) (resumeToken : Option Doc)
    (clusterTime : Option ClusterTime) : Change where
  operationType := write.operationType
  orderId := write.orderId
  fullDocument :=
    match write with
    | .insert _ doc | .replace _ doc => some doc
    | .update _ _ => lookup
    | .delete _ => none
  resumeToken := resumeToken
  clusterTime := clusterTime

theorem prepare_change (cache : Orders) (write : Write) (lookup resumeToken : Option Doc)
    (clusterTime : Option ClusterTime) (correlationId : String) :
    Watcher.prepare cache (write.change lookup resumeToken clusterTime) correlationId =
      .ok (Watcher.appendArgs cache (write.change lookup resumeToken clusterTime) write.op
        correlationId) := by
  cases write <;> rfl

theorem update_of_quiet {cache : Orders} {write : Write} {lookup resumeToken : Option Doc}
    {clusterTime : Option ClusterTime} {correlationId : String}
    (quiet : Watcher.appendArgs cache (write.change lookup resumeToken clusterTime) write.op
      correlationId = none) :
    ∃ orderId doc, write = .update orderId doc := by
  cases write with
  | update orderId doc => exact ⟨orderId, doc, rfl⟩
  | insert _ _ | replace _ _ | delete _ =>
      rcases Watcher.appendArgs_eq_none quiet with unseen | ⟨update, -⟩
      · cases unseen
      · cases update

@[simp] theorem get?_apply_self (write : Write) (orders : Orders) :
    (write.apply orders).get? write.orderId = write.result := by
  unfold apply
  cases write.result <;> simp

@[simp] theorem get?_apply_of_ne (write : Write) (orders : Orders) {orderId : String}
    (ne : orderId ≠ write.orderId) :
    (write.apply orders).get? orderId = orders.get? orderId := by
  unfold apply
  cases write.result <;> simp [ne]

end Write

end OrderStream
