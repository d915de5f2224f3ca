import OrderStream.Theory.LastWrite
import OrderStream.Theory.Transition
import OrderStream.Watcher.Agreement

/-! The watcher from `warm_cache` through streams, errors and reconciliations, beside
the writes to the collection. -/

namespace OrderStream

open Transition

/-- A position counts the changes before it in the oplog. -/
inductive WatcherPhase where
  | scanning (reconciling : Bool)
  | stopped
  | down
  | streaming (position : Nat)
  | appending (position : Nat) (args : AppendArgs)
  | adding (position : Nat)

def WatcherPhase.looping : WatcherPhase → Bool
  | .scanning _ | .stopped => false
  | .down | .streaming _ | .appending _ _ | .adding _ => true

/-- The collection is what `writes` made of `initial`.  One field is not in the source:
`stale`, the orders that the last `warm_cache` has not read since they were last written. -/
structure Lifecycle where
  initial : Orders
  writes : List Write := []
  cache : Orders := ∅
  token : Option Nat := none
  phase : WatcherPhase := .scanning false
  stale : List String := []

inductive LifecycleAction where
  | write (write : Write)
  | read (orderId : String)
  | scanEnd
  | openStream
  | deliver (seen : Nat) (resumeToken : Option Doc) (clusterTime : Option ClusterTime)
      (correlationId : String)
  | appended
  | added
  | pyMongoError
  | otherError

def version (initial : Orders) (writes : List Write) (count : Nat) : Orders :=
  (writes.take count).foldl (fun orders write => write.apply orders) initial

namespace Lifecycle

def orders (state : Lifecycle) : Orders :=
  version state.initial state.writes state.writes.length

def missed (state : Lifecycle) : List String :=
  state.orders.keys.filter fun orderId => !state.cache.contains orderId

/-- A cursor yields every order that is there all along. -/
def Exhausted (state : Lifecycle) : Prop :=
  ∀ orderId ∈ state.missed, orderId ∈ state.stale

instance (state : Lifecycle) : Decidable state.Exhausted :=
  inferInstanceAs (Decidable (∀ _ ∈ _, _))

def wrote (state : Lifecycle) (write : Write) : Lifecycle :=
  { state with writes := state.writes ++ [write], stale := write.orderId :: state.stale }

def scanFailed (state : Lifecycle) (reconciling : Bool) : Lifecycle :=
  if reconciling then
    { state with token := none, phase := .down, stale := state.missed ++ state.stale }
  else { state with phase := .stopped }

/-- The change at a position, with the lookup of `updateLookup` done after `seen`
writes. -/
def delivered (state : Lifecycle) (write : Write) (seen : Nat) (resumeToken : Option Doc)
    (clusterTime : Option ClusterTime) : Change :=
  write.change ((version state.initial state.writes seen).get? write.orderId) resumeToken
    clusterTime

def step (state : Lifecycle) : LifecycleAction → Option Lifecycle
  | .write write => if write.Valid state.orders then some (state.wrote write) else none
  | .read orderId =>
      match state.phase, state.orders.get? orderId with
      | .scanning _, some doc =>
          some { state with
            cache := state.cache.set orderId (Watcher.strip doc)
            stale := state.stale.filter fun other => decide (other ≠ orderId) }
      | _, _ => none
  | .scanEnd =>
      match state.phase with
      | .scanning _ =>
          if state.Exhausted then some { state with token := none, phase := .down } else none
      | _ => none
  | .openStream =>
      match state.phase with
      | .down =>
          some { state with phase := .streaming (state.token.getD state.writes.length) }
      | _ => none
  | .deliver seen resumeToken clusterTime correlationId =>
      match state.phase with
      | .streaming position =>
          match state.writes[position]? with
          | some write =>
              if position < seen ∧ seen ≤ state.writes.length then
                match Watcher.prepare state.cache
                    (state.delivered write seen resumeToken clusterTime) correlationId with
                | .ok none =>
                    some { state with
                      token := some (position + 1)
                      phase := .streaming (position + 1) }
                | .ok (some args) =>
                    some { state with phase := .appending position args }
                | .error _ => none
              else none
          | none => none
      | _ => none
  | .appended =>
      match state.phase with
      | .appending position args =>
          some { state with
            cache := Watcher.remember state.cache args
            phase := .adding position }
      | _ => none
  | .added =>
      match state.phase with
      | .adding position =>
          some { state with
            token := some (position + 1)
            phase := .streaming (position + 1) }
      | _ => none
  | .pyMongoError =>
      match state.phase with
      | .scanning reconciling => some (state.scanFailed reconciling)
      | .stopped => none
      | .down | .streaming _ | .appending _ _ | .adding _ =>
          -- `_reconcile_or_reset` clears the cache before it scans
          some { state with cache := ∅, phase := .scanning true, stale := [] }
  | .otherError =>
      match state.phase with
      | .scanning reconciling => some (state.scanFailed reconciling)
      | .stopped => none
      | .down | .streaming _ | .appending _ _ | .adding _ =>
          some { state with phase := .down }

def drained (state : Lifecycle) : Bool :=
  match state.phase with
  | .streaming position => decide (position = state.writes.length)
  | _ => false

/-- The cache shows the order as the collection has it, up to the ignored fields. -/
def Shows (state : Lifecycle) (orderId : String) : Prop :=
  Option.Rel Doc.SameGets (state.cache.get? orderId) (state.orders.get? orderId)

def Current (state : Lifecycle) : Prop := ∀ orderId, state.Shows orderId

/-- Where a stream is opened without a resume token, the cache shows even the orders that
the last scan has not read since they were last written. -/
def OpensFresh (state : Lifecycle) (action : LifecycleAction) : Prop :=
  action = .openStream → state.phase = .down → state.token = none →
    ∀ orderId ∈ state.stale, state.Shows orderId

inductive Step (state : Lifecycle) : LifecycleAction → Lifecycle → Prop where
  | wrote {write : Write} : write.Valid state.orders →
      Step state (.write write) (state.wrote write)
  | read {reconciling : Bool} {orderId : String} {doc : Doc} :
      state.phase = .scanning reconciling → state.orders.get? orderId = some doc →
        Step state (.read orderId)
          { state with
            cache := state.cache.set orderId (Watcher.strip doc)
            stale := state.stale.filter fun other => decide (other ≠ orderId) }
  | scanned {reconciling : Bool} : state.phase = .scanning reconciling → state.Exhausted →
      Step state .scanEnd { state with token := none, phase := .down }
  | opened : state.phase = .down →
      Step state .openStream
        { state with phase := .streaming (state.token.getD state.writes.length) }
  | skipped {position seen : Nat} {write : Write} {resumeToken : Option Doc}
      {clusterTime : Option ClusterTime} {correlationId : String} :
      state.phase = .streaming position → state.writes[position]? = some write →
        position < seen → seen ≤ state.writes.length →
          Watcher.appendArgs state.cache (state.delivered write seen resumeToken clusterTime)
            write.op correlationId = none →
              Step state (.deliver seen resumeToken clusterTime correlationId)
                { state with
                  token := some (position + 1)
                  phase := .streaming (position + 1) }
  | prepared {position seen : Nat} {write : Write} {resumeToken : Option Doc}
      {clusterTime : Option ClusterTime} {correlationId : String} {args : AppendArgs} :
      state.phase = .streaming position → state.writes[position]? = some write →
        position < seen → seen ≤ state.writes.length →
          Watcher.appendArgs state.cache (state.delivered write seen resumeToken clusterTime)
            write.op correlationId = some args →
              Step state (.deliver seen resumeToken clusterTime correlationId)
                { state with phase := .appending position args }
  | appended {position : Nat} {args : AppendArgs} : state.phase = .appending position args →
      Step state .appended
        { state with
          cache := Watcher.remember state.cache args
          phase := .adding position }
  | added {position : Nat} : state.phase = .adding position →
      Step state .added
        { state with
          token := some (position + 1)
          phase := .streaming (position + 1) }
  | scanFailed {action : LifecycleAction} {reconciling : Bool} :
      action = .pyMongoError ∨ action = .otherError → state.phase = .scanning reconciling →
        Step state action (state.scanFailed reconciling)
  | reconciling : state.phase.looping = true →
      Step state .pyMongoError { state with cache := ∅, phase := .scanning true, stale := [] }
  | dropped : state.phase.looping = true →
      Step state .otherError { state with phase := .down }

theorem step_cases {state next : Lifecycle} {action : LifecycleAction}
    (stepped : step state action = some next) : Step state action next := by
  cases action with
  | write write =>
      simp only [step] at stepped
      split at stepped
      · cases stepped
        exact .wrote ‹_›
      · cases stepped
  | read orderId =>
      simp only [step] at stepped
      split at stepped
      · cases stepped
        exact .read ‹_› ‹_›
      · cases stepped
  | scanEnd =>
      simp only [step] at stepped
      split at stepped
      · split at stepped
        · cases stepped
          exact .scanned ‹_› ‹_›
        · cases stepped
      · cases stepped
  | openStream =>
      simp only [step] at stepped
      split at stepped
      · cases stepped
        exact .opened ‹_›
      · cases stepped
  | deliver seen resumeToken clusterTime correlationId =>
      simp only [step] at stepped
      split at stepped
      · split at stepped
        · rename_i streaming _ write found
          split at stepped
          · rename_i bounds
            simp only [delivered, Write.prepare_change] at stepped
            cases prepared : Watcher.appendArgs state.cache
                (state.delivered write seen resumeToken clusterTime) write.op correlationId with
            | none =>
                simp only [delivered] at prepared
                rw [prepared] at stepped
                cases stepped
                exact .skipped streaming found bounds.1 bounds.2 prepared
            | some args =>
                simp only [delivered] at prepared
                rw [prepared] at stepped
                cases stepped
                exact .prepared streaming found bounds.1 bounds.2 prepared
          · cases stepped
        · cases stepped
      · cases stepped
  | appended =>
      simp only [step] at stepped
      split at stepped
      · cases stepped
        exact .appended ‹_›
      · cases stepped
  | added =>
      simp only [step] at stepped
      split at stepped
      · cases stepped
        exact .added ‹_›
      · cases stepped
  | pyMongoError =>
      simp only [step] at stepped
      split at stepped
      · cases stepped
        exact .scanFailed (Or.inl rfl) ‹_›
      · cases stepped
      all_goals
        rename_i phase
        cases stepped
        exact .reconciling (congrArg WatcherPhase.looping phase)
  | otherError =>
      simp only [step] at stepped
      split at stepped
      · cases stepped
        exact .scanFailed (Or.inr rfl) ‹_›
      · cases stepped
      all_goals
        rename_i phase
        cases stepped
        exact .dropped (congrArg WatcherPhase.looping phase)

theorem orders_of_step {state next : Lifecycle} {action : LifecycleAction}
    (other : ∀ write, action ≠ .write write) (stepped : step state action = some next) :
    next.orders = state.orders := by
  cases step_cases stepped with
  | wrote _ => exact absurd rfl (other _)
  | scanFailed _ _ =>
      unfold scanFailed
      split
      · rfl
      · rfl
  | _ => rfl

end Lifecycle

theorem version_of_le (initial : Orders) {writes : List Write} (more : List Write)
    {count : Nat} (inside : count ≤ writes.length) :
    version initial (writes ++ more) count = version initial writes count := by
  rw [version, version, List.take_append_of_le_length inside]

theorem version_succ (initial : Orders) {writes : List Write} {position : Nat}
    {write : Write} (found : writes[position]? = some write) :
    version initial writes (position + 1) =
      write.apply (version initial writes position) := by
  rw [version, version, List.take_add_one, found, List.foldl_append]
  rfl

theorem lastWrite_apply :
    LastWrite.Law (fun (orders : Orders) (write : Write) => write.apply orders)
      (fun orders orderId => orders.get? orderId) Write.orderId Write.result fun _ => True where
  own orders write _ := Write.get?_apply_self write orders
  other orders write _ ne := Write.get?_apply_of_ne write orders ne

theorem get?_version (initial : Orders) {writes : List Write} {position seen : Nat}
    (later : position ≤ seen) {orderId : String}
    (unwritten : ∀ write ∈ writes.drop position, write.orderId ≠ orderId) :
    (version initial writes seen).get? orderId =
      (version initial writes position).get? orderId := by
  obtain ⟨further, rfl⟩ := Nat.exists_eq_add_of_le later
  rw [version, version, List.take_add, List.foldl_append]
  apply lastWrite_apply.get_foldl_of_absent fun _ _ => trivial
  intro write member
  exact unwritten write (List.mem_of_mem_take member)

end OrderStream
