import OrderStream.Routes.Served
import OrderStream.Watcher.Continuity
import OrderStream.Watcher.NoChangeLost

namespace OrderStream

open Transition

/-- The watcher with the spine it appends to, and one snapshot.  Three fields are not in
the source: the orders written since `head_seq` was read, and how many writes there were
when an order was read, and when the cursor was exhausted. -/
structure Snapshot where
  watcher : Lifecycle
  tail : Tail
  inserting : Option Draft := none
  recorded : List Draft := []
  headSeq : Option Int := none
  headHash : Option String := none
  orders : Orders := ∅
  written : List String := []
  reads : PyDict String Nat := ∅
  answered : Option Nat := none

inductive SnapshotAction where
  | write (write : Write)
  | openStream
  | deliver (seen : Nat) (resumeToken : Option Doc) (clusterTime : Option ClusterTime)
      (correlationId : String)
  | take (eventId : String) (ts : Temporal)
  | stored
  | added
  | readHead
  | readOrder (orderId : String)
  | respond

namespace Snapshot

def onWatcher (state : Snapshot) (action : LifecycleAction) : Option Snapshot :=
  (Lifecycle.step state.watcher action).map fun watcher => { state with watcher }

def draft (state : Snapshot) (args : AppendArgs) (eventId : String) (ts : Temporal) :
    Draft where
  args := args
  eventId := eventId
  ts := ts
  seq := state.tail.seq + 1
  prevHash := state.tail.hash

/-- The cursor yields every order that is there and not written all along. -/
def Exhausted (state : Snapshot) : Prop :=
  ∀ orderId ∈ state.watcher.orders.keys,
    state.orders.contains orderId = true ∨ orderId ∈ state.written

instance (state : Snapshot) : Decidable state.Exhausted :=
  inferInstanceAs (Decidable (∀ _ ∈ _, _))

/-- `JSONResponse` does not raise. -/
def renders (state : Snapshot) : Bool := state.orders.entries.all fun entry => entry.2.isFinite

/-- `doc["_id"] = str(doc["_id"])` -/
def entry (orderId : String) (doc : Doc) : Doc := doc.set "_id" (.str orderId)

def step (state : Snapshot) : SnapshotAction → Option Snapshot
  | .write write =>
      (state.onWatcher (.write write)).map fun state =>
        { state with written := write.orderId :: state.written }
  | .openStream => state.onWatcher .openStream
  | .deliver seen resumeToken clusterTime correlationId =>
      state.onWatcher (.deliver seen resumeToken clusterTime correlationId)
  | .take eventId ts =>
      match state.watcher.phase, state.inserting with
      | .appending _ args, none =>
          some { state with
            tail := { state.tail with seq := state.tail.seq + 1 }
            inserting := some (state.draft args eventId ts) }
      | _, _ => none
  | .stored =>
      match state.inserting with
      | some draft =>
          (state.onWatcher .appended).map fun state =>
            { state with
              tail := { state.tail with hash := draft.hash }
              inserting := none
              recorded := state.recorded ++ [draft] }
      | none => none
  | .added => state.onWatcher .added
  | .readHead =>
      match state.headSeq with
      | none =>
          some { state with
            headSeq := some state.tail.seq
            headHash := some state.tail.hash
            written := [] }
      | some _ => none
  | .readOrder orderId =>
      match state.headSeq, state.answered, state.watcher.orders.get? orderId with
      | some _, none, some doc =>
          some { state with
            orders := state.orders.set orderId (entry orderId doc)
            reads := state.reads.set orderId state.watcher.writes.length }
      | _, _, _ => none
  | .respond =>
      match state.headSeq, state.answered with
      | some _, none =>
          if state.Exhausted then
            if state.renders then
              some { state with answered := some state.watcher.writes.length }
            else
              -- the client has a 500, and may ask anew
              some { state with headSeq := none, headHash := none, orders := ∅, reads := ∅ }
          else none
      | _, _ => none

/-- What a client does with an event. -/
def applyEvent (orders : Orders) (event : Event) : Orders :=
  if event.op = .delete then orders.erase event.orderId
  else
    match event.after with
    | some after => orders.set event.orderId after
    | none => orders

def served (state : Snapshot) : Orders := state.orders.mapValues servedDoc

/-- The orders of the response after every event with `seq > head_seq`. -/
def view (state : Snapshot) (head : Int) : Orders :=
  (state.recorded.filter fun draft => decide (head < draft.seq)).foldl
    (fun orders draft => applyEvent orders draft.event) state.served

end Snapshot

/-- The document agrees with the stored one, or is the form that an event has of one that
does. -/
def Doc.Presents (shown stored : Doc) : Prop :=
  ∃ doc : Doc, (shown = doc ∨ shown = canonicalDoc doc) ∧ doc.SameGets stored

/-- The document is the JSON form of one that agrees with the stored one: that of a
response, where a datetime is `str(value)`, or that of an event. -/
def Doc.PresentsServed (shown stored : Doc) : Prop :=
  ∃ doc : Doc, (shown = servedDoc doc ∨ shown = canonicalDoc doc) ∧ doc.SameGets stored

section

variable {shown stored : Doc} {field text : String}

theorem Doc.SameGets.get_str (same : shown.SameGets stored)
    (compared : isIgnored field = false) (found : stored.get field = .str text) :
    shown.get field = .str text := by
  have agrees := same field compared
  rw [found] at agrees
  exact agrees.elim id Value.pyEq_str_iff.mp

theorem get_str_canonicalDoc (found : stored.get field = .str text) :
    (canonicalDoc stored).get field = .str text := by
  rw [Doc.get, canonicalDoc, PyDict.get?_mapValues, Doc.get?_eq_some found (by simp)]
  rfl

theorem get_str_servedDoc (found : stored.get field = .str text) :
    (servedDoc stored).get field = .str text := by
  rw [Doc.get, servedDoc, PyDict.get?_mapValues, Doc.get?_eq_some found (by simp)]
  rfl

theorem Doc.Presents.get_str (presents : shown.Presents stored)
    (compared : isIgnored field = false) (found : stored.get field = .str text) :
    shown.get field = .str text := by
  obtain ⟨doc, form, same⟩ := presents
  have equal := same.get_str compared found
  rcases form with rfl | rfl
  · exact equal
  · exact get_str_canonicalDoc equal

theorem Doc.PresentsServed.get_str (presents : shown.PresentsServed stored)
    (compared : isIgnored field = false) (found : stored.get field = .str text) :
    shown.get field = .str text := by
  obtain ⟨doc, form, same⟩ := presents
  have equal := same.get_str compared found
  rcases form with rfl | rfl
  · exact get_str_servedDoc equal
  · exact get_str_canonicalDoc equal

end

def WatcherPhase.next? : WatcherPhase → Option Nat
  | .streaming position => some position
  | .appending position _ | .adding position => some (position + 1)
  | .scanning _ | .stopped | .down => none

namespace Snapshot

def Told (state : Snapshot) (orderId : String) : Prop :=
  ∃ head draft, state.headSeq = some head ∧ draft ∈ state.recorded ∧
    draft.args.orderId = orderId ∧ head < draft.seq

def Telling (state : Snapshot) (orderId : String) : Prop :=
  ∃ position args, state.watcher.phase = .appending position args ∧ args.orderId = orderId ∧
    ∀ head draft, state.headSeq = some head → state.inserting = some draft → head < draft.seq

def copiedAt (state : Snapshot) (orderId : String) : Option Nat :=
  (state.reads.get? orderId).or state.answered

/-- The change at the position is the last one before the snapshot's copy of the order. -/
def Left (state : Snapshot) (position : Nat) (orderId : String) : Prop :=
  ∃ count, state.copiedAt orderId = some count ∧ position < count ∧
    ∀ write ∈ (state.watcher.writes.take count).drop (position + 1), write.orderId ≠ orderId

/-- Once a stream is open, the cache agrees with the collection and with the copies taken
before; an update that left what the snapshot copied is looked up as it left it, or as the
cache does not show it; and an order that the cursor missed has an event to come. -/
def Timely (state : Snapshot) : SnapshotAction → Prop
  | .openStream => ∀ orderId, state.watcher.Shows orderId ∧
      ((state.copiedAt orderId).isSome = true →
        Option.Rel Doc.SameGets (state.orders.get? orderId) (state.watcher.cache.get? orderId))
  | .deliver seen _ _ _ => ∀ position orderId doc found,
      state.watcher.phase = .streaming position →
        state.watcher.writes[position]? = some (.update orderId doc) →
          state.Left position orderId → ¬state.Told orderId →
            (version state.watcher.initial state.watcher.writes seen).get? orderId =
                some found →
              Option.Rel Doc.SameGets (state.watcher.cache.get? orderId) (some found) →
                Option.Rel Doc.SameGets (state.orders.get? orderId) (some found)
  | .respond => state.renders = true → ∀ next orderId, state.watcher.phase.next? = some next →
      orderId ∈ state.watcher.orders.keys → state.orders.get? orderId = none →
        state.Told orderId ∨ state.Telling orderId ∨
          ∃ write ∈ state.watcher.writes.drop next, write.orderId = orderId
  | _ => True

inductive Step (state : Snapshot) : SnapshotAction → Snapshot → Prop where
  | wrote {write : Write} {watcher : Lifecycle} :
      Lifecycle.step state.watcher (.write write) = some watcher →
        Step state (.write write)
          { state with watcher, written := write.orderId :: state.written }
  | opened {watcher : Lifecycle} :
      Lifecycle.step state.watcher .openStream = some watcher →
        Step state .openStream { state with watcher }
  | delivered {seen : Nat} {resumeToken : Option Doc} {clusterTime : Option ClusterTime}
      {correlationId : String} {watcher : Lifecycle} :
      Lifecycle.step state.watcher (.deliver seen resumeToken clusterTime correlationId) =
          some watcher →
        Step state (.deliver seen resumeToken clusterTime correlationId) { state with watcher }
  | took {position : Nat} {args : AppendArgs} {eventId : String} {ts : Temporal} :
      state.watcher.phase = .appending position args → state.inserting = none →
        Step state (.take eventId ts)
          { state with
            tail := { state.tail with seq := state.tail.seq + 1 }
            inserting := some (state.draft args eventId ts) }
  | stored {draft : Draft} {watcher : Lifecycle} : state.inserting = some draft →
      Lifecycle.step state.watcher .appended = some watcher →
        Step state .stored
          { state with
            watcher
            tail := { state.tail with hash := draft.hash }
            inserting := none
            recorded := state.recorded ++ [draft] }
  | added {watcher : Lifecycle} : Lifecycle.step state.watcher .added = some watcher →
      Step state .added { state with watcher }
  | headRead : state.headSeq = none →
      Step state .readHead
        { state with
          headSeq := some state.tail.seq
          headHash := some state.tail.hash
          written := [] }
  | orderRead {head : Int} {orderId : String} {doc : Doc} : state.headSeq = some head →
      state.answered = none → state.watcher.orders.get? orderId = some doc →
        Step state (.readOrder orderId)
          { state with
            orders := state.orders.set orderId (entry orderId doc)
            reads := state.reads.set orderId state.watcher.writes.length }
  | responded {head : Int} : state.headSeq = some head → state.answered = none →
      state.Exhausted → state.renders = true →
        Step state .respond { state with answered := some state.watcher.writes.length }
  | refused : state.answered = none → state.renders = false →
      Step state .respond
        { state with headSeq := none, headHash := none, orders := ∅, reads := ∅ }

theorem onWatcher_eq_some {state next : Snapshot} {action : LifecycleAction}
    (moved : state.onWatcher action = some next) :
    ∃ watcher, Lifecycle.step state.watcher action = some watcher ∧
      next = { state with watcher } := by
  obtain ⟨watcher, stepped, equal⟩ := Option.map_eq_some_iff.mp moved
  exact ⟨watcher, stepped, equal.symm⟩

theorem step_cases {state next : Snapshot} {action : SnapshotAction}
    (stepped : step state action = some next) : Step state action next := by
  cases action with
  | write write =>
      obtain ⟨middle, moved, rfl⟩ := Option.map_eq_some_iff.mp stepped
      obtain ⟨watcher, taken, rfl⟩ := onWatcher_eq_some moved
      exact .wrote taken
  | openStream =>
      obtain ⟨watcher, taken, rfl⟩ := onWatcher_eq_some stepped
      exact .opened taken
  | deliver seen resumeToken clusterTime correlationId =>
      obtain ⟨watcher, taken, rfl⟩ := onWatcher_eq_some stepped
      exact .delivered taken
  | take eventId ts =>
      simp only [step] at stepped
      split at stepped
      · cases stepped
        exact .took ‹_› ‹_›
      · cases stepped
  | stored =>
      simp only [step] at stepped
      split at stepped
      · obtain ⟨middle, moved, rfl⟩ := Option.map_eq_some_iff.mp stepped
        obtain ⟨watcher, taken, rfl⟩ := onWatcher_eq_some moved
        exact .stored ‹_› taken
      · cases stepped
  | added =>
      obtain ⟨watcher, taken, rfl⟩ := onWatcher_eq_some stepped
      exact .added taken
  | readHead =>
      simp only [step] at stepped
      split at stepped
      · cases stepped
        exact .headRead ‹_›
      · cases stepped
  | readOrder orderId =>
      simp only [step] at stepped
      split at stepped
      · cases stepped
        exact .orderRead ‹_› ‹_› ‹_›
      · cases stepped
  | respond =>
      simp only [step] at stepped
      split at stepped
      · split at stepped
        · split at stepped
          · cases stepped
            exact .responded ‹_› ‹_› ‹_› ‹_›
          · rename_i raises
            cases stepped
            exact .refused ‹_› (Bool.eq_false_of_not_eq_true raises)
        · cases stepped
      · cases stepped

theorem wrote_eq {watcher next : Lifecycle} {write : Write}
    (stepped : Lifecycle.step watcher (.write write) = some next) :
    next = watcher.wrote write := by
  cases Lifecycle.step_cases stepped with
  | wrote _ => rfl
  | scanFailed failed _ => rcases failed with failed | failed <;> cases failed

theorem opened_eq {watcher next : Lifecycle}
    (stepped : Lifecycle.step watcher .openStream = some next) :
    watcher.phase = .down ∧
      next = { watcher with
        phase := .streaming (watcher.token.getD watcher.writes.length) } := by
  cases Lifecycle.step_cases stepped with
  | opened down => exact ⟨down, rfl⟩
  | scanFailed failed _ => rcases failed with failed | failed <;> cases failed

theorem appended_eq {watcher next : Lifecycle}
    (stepped : Lifecycle.step watcher .appended = some next) :
    ∃ position args, watcher.phase = .appending position args ∧
      next = { watcher with
        cache := Watcher.remember watcher.cache args
        phase := .adding position } := by
  cases Lifecycle.step_cases stepped with
  | appended appending => exact ⟨_, _, appending, rfl⟩
  | scanFailed failed _ => rcases failed with failed | failed <;> cases failed

theorem added_eq {watcher next : Lifecycle}
    (stepped : Lifecycle.step watcher .added = some next) :
    ∃ position, watcher.phase = .adding position ∧
      next = { watcher with
        token := some (position + 1)
        phase := .streaming (position + 1) } := by
  cases Lifecycle.step_cases stepped with
  | added adding => exact ⟨_, adding, rfl⟩
  | scanFailed failed _ => rcases failed with failed | failed <;> cases failed

theorem delivered_eq {watcher next : Lifecycle} {seen : Nat} {resumeToken : Option Doc}
    {clusterTime : Option ClusterTime} {correlationId : String}
    (stepped : Lifecycle.step watcher
      (.deliver seen resumeToken clusterTime correlationId) = some next) :
    ∃ position write, watcher.phase = .streaming position ∧
      watcher.writes[position]? = some write ∧ position < seen ∧
        seen ≤ watcher.writes.length ∧
      (Watcher.appendArgs watcher.cache
            (watcher.delivered write seen resumeToken clusterTime) write.op correlationId =
          none ∧
        next = { watcher with
          token := some (position + 1)
          phase := .streaming (position + 1) } ∨
      ∃ args, Watcher.appendArgs watcher.cache
            (watcher.delivered write seen resumeToken clusterTime) write.op correlationId =
          some args ∧
        next = { watcher with phase := .appending position args }) := by
  cases Lifecycle.step_cases stepped with
  | skipped streaming found later inside quiet =>
      exact ⟨_, _, streaming, found, later, inside, Or.inl ⟨quiet, rfl⟩⟩
  | prepared streaming found later inside prepared =>
      exact ⟨_, _, streaming, found, later, inside, Or.inr ⟨_, prepared, rfl⟩⟩
  | scanFailed failed _ => rcases failed with failed | failed <;> cases failed

end Snapshot

end OrderStream
