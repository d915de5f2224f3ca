import OrderStream.Delivery.LiveView
import OrderStream.Delivery.Shutdown
import OrderStream.Routes.History
import OrderStream.Watcher.Convergence
import OrderStream.Watcher.Rebuild

/-! From a request to what a client shows: the routes, the watcher and the pipeline behind
it, in one system. -/

namespace OrderStream

open Transition
open Pipeline (shown)
open Snapshot (applyEvent)

/-- The writes of the routes are what the watcher's stream delivers, and what the watcher
appends is what goes down the pipeline. -/
structure Service where
  api : OrdersApi
  watcher : Lifecycle
  pipeline : Pipeline

/-- `appendRaises` is an error in `insert_one`, with or without the event stored. -/
inductive ServiceAction where
  | request (action : OrdersAction)
  | watch (action : LifecycleAction)
  | append (eventId : String) (ts : Temporal)
  | appendRaises (eventId : String) (ts : Temporal) (stored : Bool)
  | add
  | pipe (action : PipelineAction)

def LifecycleAction.alone : LifecycleAction → Bool
  | .write _ | .appended | .added => false
  | .read _ | .scanEnd | .openStream | .deliver _ _ _ _ | .pyMongoError | .otherError => true

namespace Service

def follow (watcher : Lifecycle) (writes : List Write) : Option Lifecycle :=
  exec Lifecycle.step watcher (writes.map .write)

def step (windows : Windows) (service : Service) : ServiceAction → Option Service
  | .request action =>
      (OrdersApi.step service.api action).bind fun api =>
        (follow service.watcher (api.writes.drop service.api.writes.length)).map fun watcher =>
          { service with api, watcher }
  | .watch action =>
      if action.alone then
        (Lifecycle.step service.watcher action).map fun watcher => { service with watcher }
      else none
  | .append eventId ts =>
      match service.watcher.phase with
      | .appending _ args =>
          (Lifecycle.step service.watcher .appended).bind fun watcher =>
            (Pipeline.step windows service.pipeline (.append args eventId ts)).map
              fun pipeline => { service with watcher, pipeline }
      | _ => none
  | .appendRaises eventId ts stored =>
      match service.watcher.phase with
      | .appending _ args =>
          (Lifecycle.step service.watcher .pyMongoError).bind fun watcher =>
            (Pipeline.step windows service.pipeline (.fail args eventId ts stored)).map
              fun pipeline => { service with watcher, pipeline }
      | _ => none
  | .add =>
      (Lifecycle.step service.watcher .added).bind fun watcher =>
        (Pipeline.step windows service.pipeline .add).map fun pipeline =>
          { service with watcher, pipeline }
  | .pipe action =>
      if action.alone then
        (Pipeline.step windows service.pipeline action).map fun pipeline =>
          { service with pipeline }
      else none

def requests (actions : List ServiceAction) : List OrdersAction :=
  actions.filterMap fun action =>
    match action with
    | .request request => some request
    | _ => none

end Service

/-- The document has the fields of the record as the spine records them, up to values that
Python finds equal. -/
def OrderRecord.ShownBy (record : OrderRecord) (doc : Doc) : Prop :=
  ∀ field, isIgnored field = false →
    ∃ value, value.Same (record.get field) ∧ doc.get field = canonical value

def WatcherPhase.attached : WatcherPhase → Bool
  | .streaming _ | .appending _ _ | .adding _ => true
  | .scanning _ | .stopped | .down => false

theorem OrderTable.effects_append (table : OrderTable) (first second : List OrdersAction) :
    table.effects (first ++ second) =
      table.effects first ++ (table.afterAll (table.effects first)).effects second := by
  induction first generalizing table with
  | nil => rfl
  | cons action rest ih =>
      rw [List.cons_append, effects, effects, ih, List.append_assoc]
      congr 2
      rw [afterAll, afterAll, afterAll, ← List.foldl_append]

namespace Service

variable {windows : Windows} {service next : Service}

inductive Step (windows : Windows) (service : Service) : ServiceAction → Service → Prop where
  | requested {action : OrdersAction} {api : OrdersApi} {watcher : Lifecycle} :
      OrdersApi.step service.api action = some api →
        follow service.watcher (api.writes.drop service.api.writes.length) = some watcher →
          Step windows service (.request action) { service with api, watcher }
  | watched {action : LifecycleAction} {watcher : Lifecycle} : action.alone = true →
      Lifecycle.step service.watcher action = some watcher →
        Step windows service (.watch action) { service with watcher }
  | appended {eventId : String} {ts : Temporal} {position : Nat} {args : AppendArgs}
      {watcher : Lifecycle} {pipeline : Pipeline} :
      service.watcher.phase = .appending position args →
        Lifecycle.step service.watcher .appended = some watcher →
        Pipeline.step windows service.pipeline (.append args eventId ts) = some pipeline →
          Step windows service (.append eventId ts) { service with watcher, pipeline }
  | raised {eventId : String} {ts : Temporal} {stored : Bool} {position : Nat}
      {args : AppendArgs} {watcher : Lifecycle} {pipeline : Pipeline} :
      service.watcher.phase = .appending position args →
        Lifecycle.step service.watcher .pyMongoError = some watcher →
        Pipeline.step windows service.pipeline (.fail args eventId ts stored) =
            some pipeline →
          Step windows service (.appendRaises eventId ts stored)
            { service with watcher, pipeline }
  | added {watcher : Lifecycle} {pipeline : Pipeline} :
      Lifecycle.step service.watcher .added = some watcher →
        Pipeline.step windows service.pipeline .add = some pipeline →
          Step windows service .add { service with watcher, pipeline }
  | piped {action : PipelineAction} {pipeline : Pipeline} : action.alone = true →
      Pipeline.step windows service.pipeline action = some pipeline →
        Step windows service (.pipe action) { service with pipeline }

theorem step_cases {action : ServiceAction} (stepped : step windows service action = some next) :
    Step windows service action next := by
  cases action with
  | request action =>
      obtain ⟨api, answered, moved⟩ := Option.bind_eq_some_iff.mp stepped
      obtain ⟨watcher, followed, rfl⟩ := Option.map_eq_some_iff.mp moved
      exact .requested answered followed
  | watch action =>
      simp only [step] at stepped
      split at stepped
      · obtain ⟨watcher, moved, rfl⟩ := Option.map_eq_some_iff.mp stepped
        exact .watched ‹_› moved
      · cases stepped
  | append eventId ts =>
      simp only [step] at stepped
      split at stepped
      · obtain ⟨watcher, moved, both⟩ := Option.bind_eq_some_iff.mp stepped
        obtain ⟨pipeline, piped, rfl⟩ := Option.map_eq_some_iff.mp both
        exact .appended ‹_› moved piped
      · cases stepped
  | appendRaises eventId ts stored =>
      simp only [step] at stepped
      split at stepped
      · obtain ⟨watcher, moved, both⟩ := Option.bind_eq_some_iff.mp stepped
        obtain ⟨pipeline, piped, rfl⟩ := Option.map_eq_some_iff.mp both
        exact .raised ‹_› moved piped
      · cases stepped
  | add =>
      obtain ⟨watcher, moved, both⟩ := Option.bind_eq_some_iff.mp stepped
      obtain ⟨pipeline, piped, rfl⟩ := Option.map_eq_some_iff.mp both
      exact .added moved piped
  | pipe action =>
      simp only [step] at stepped
      split at stepped
      · obtain ⟨pipeline, piped, rfl⟩ := Option.map_eq_some_iff.mp stepped
        exact .piped ‹_› piped
      · cases stepped

structure Watching (table : OrderTable) (watcher : Lifecycle) : Prop where
  shows : table.Shows watcher.orders
  valid : watcher.ValidHistory
  sound : watcher.SoundIn watcher.phase

theorem Watching.step {table : OrderTable} {watcher after : Lifecycle}
    (watching : Watching table watcher) {action : LifecycleAction}
    (other : ∀ write, action ≠ .write write) (uninterrupted : action ≠ .openStream)
    (stepped : Lifecycle.step watcher action = some after) : Watching table after := by
  refine ⟨?_, Lifecycle.validHistory_step watching.valid stepped,
    Lifecycle.sound_step watching.valid watching.sound (fun opens => absurd opens uninterrupted)
      stepped⟩
  rw [Lifecycle.orders_of_step other stepped]
  exact watching.shows

theorem alone_ne {action : LifecycleAction} (alone : action.alone = true) (write : Write) :
    action ≠ .write write := by
  rintro rfl
  cases alone

theorem wrote_of_step {watcher after : Lifecycle} {write : Write}
    (stepped : Lifecycle.step watcher (.write write) = some after) :
    after = watcher.wrote write := by
  simp only [Lifecycle.step] at stepped
  split at stepped
  · cases stepped
    rfl
  · cases stepped

theorem Watching.follow {table : OrderTable} {watcher after : Lifecycle}
    (watching : Watching table watcher) {effects : List Effect}
    (followed : Service.follow watcher (effects.map Effect.write) = some after) :
    Watching (table.afterAll effects) after := by
  induction effects generalizing table watcher with
  | nil =>
      cases followed
      exact watching
  | cons effect effects ih =>
      obtain ⟨middle, stepped, rest⟩ := Option.bind_eq_some_iff.mp followed
      refine ih ?_ rest
      refine ⟨?_, Lifecycle.validHistory_step watching.valid stepped,
        Lifecycle.sound_step watching.valid watching.sound (fun opens => by cases opens)
          stepped⟩
      rw [wrote_of_step stepped, Lifecycle.orders_wrote]
      exact watching.shows.apply effect

structure Recalling (orders : Orders) (watcher : Lifecycle) (appended : List Draft) : Prop where
  fitting : ∀ draft ∈ appended, draft.args.Fitting
  prepared : ∀ position args, watcher.phase = .appending position args → args.Fitting
  recalls : watcher.phase.attached = true → ∀ orderId,
    (shown orders appended).get? orderId = (watcher.cache.get? orderId).map canonicalDoc

theorem Recalling.away {orders : Orders} {watcher after : Lifecycle} {appended : List Draft}
    (recalling : Recalling orders watcher appended) (away : after.phase.attached = false) :
    Recalling orders after appended := by
  refine ⟨recalling.fitting, ?_, ?_⟩
  · intro position args appending
    rw [appending] at away
    cases away
  · intro attached
    rw [away] at attached
    cases attached

theorem Recalling.same {orders : Orders} {watcher after : Lifecycle} {appended : List Draft}
    (recalling : Recalling orders watcher appended) (attached : watcher.phase.attached = true)
    (cache : after.cache = watcher.cache)
    (prepared : ∀ position args, after.phase = .appending position args → args.Fitting) :
    Recalling orders after appended := by
  refine ⟨recalling.fitting, prepared, ?_⟩
  intro _ orderId
  rw [cache]
  exact recalling.recalls attached orderId

theorem Recalling.step {orders : Orders} {watcher after : Lifecycle} {appended : List Draft}
    (recalling : Recalling orders watcher appended) {action : LifecycleAction}
    (alone : action.alone = true) (uninterrupted : action ≠ .openStream)
    (stepped : Lifecycle.step watcher action = some after) :
    Recalling orders after appended := by
  cases Lifecycle.step_cases stepped with
  | wrote _ | appended _ | added _ => cases alone
  | opened _ => exact absurd rfl uninterrupted
  | read scanning _ =>
      refine recalling.away ?_
      rw [scanning]
      rfl
  | scanned _ _ | reconciling _ | dropped _ => exact recalling.away rfl
  | scanFailed _ _ =>
      refine recalling.away ?_
      unfold Lifecycle.scanFailed
      split
      · rfl
      · rfl
  | skipped streaming _ _ _ _ =>
      refine recalling.same (by rw [streaming]; rfl) rfl ?_
      intro position args appending
      cases appending
  | prepared streaming _ _ _ appends =>
      refine recalling.same (by rw [streaming]; rfl) rfl ?_
      intro position args appending
      cases appending
      exact Watcher.fitting_of_appendArgs appends

theorem Recalling.follow {orders : Orders} {watcher after : Lifecycle} {appended : List Draft}
    (recalling : Recalling orders watcher appended) {writes : List Write}
    (followed : Service.follow watcher writes = some after) :
    Recalling orders after appended := by
  induction writes generalizing watcher with
  | nil =>
      cases followed
      exact recalling
  | cons write writes ih =>
      obtain ⟨middle, stepped, rest⟩ := Option.bind_eq_some_iff.mp followed
      refine ih ?_ rest
      rw [wrote_of_step stepped]
      exact ⟨recalling.fitting, recalling.prepared, recalling.recalls⟩

theorem Recalling.append {orders : Orders} {watcher after : Lifecycle} {appended : List Draft}
    (recalling : Recalling orders watcher appended) {position : Nat} {draft : Draft}
    (appending : watcher.phase = .appending position draft.args)
    (stepped : Lifecycle.step watcher .appended = some after) :
    Recalling orders after (appended ++ [draft]) := by
  have fits := recalling.prepared position draft.args appending
  have known := recalling.recalls (by rw [appending]; rfl)
  cases Lifecycle.step_cases stepped with
  | scanFailed error _ => rcases error with error | error <;> cases error
  | appended same =>
      cases appending.symm.trans same
      refine ⟨?_, ?_, ?_⟩
      · intro other member
        rcases List.mem_append.mp member with earlier | last
        · exact recalling.fitting other earlier
        · rw [List.mem_singleton.mp last]
          exact fits
      · intro other args later
        cases later
      · intro _ orderId
        rw [shown, List.foldl_append]
        by_cases own : orderId = draft.args.orderId
        · subst own
          exact (Snapshot.get?_applyEvent_self _ fits).trans
            (congrArg (Option.map canonicalDoc) (Watcher.get?_remember_self _ _).symm)
        · rw [Watcher.get?_remember_of_ne _ _ own]
          exact (Snapshot.get?_applyEvent_of_ne _ own).trans (known orderId)

theorem Recalling.raise {orders : Orders} {watcher after : Lifecycle}
    {appended stored : List Draft} (recalling : Recalling orders watcher appended)
    {position : Nat} {args : AppendArgs} (appending : watcher.phase = .appending position args)
    (stepped : Lifecycle.step watcher .pyMongoError = some after)
    (grown : ∀ draft ∈ stored, draft ∈ appended ∨ draft.args = args) :
    Recalling orders after stored := by
  have away : after.phase.attached = false := by
    cases Lifecycle.step_cases stepped with
    | scanFailed _ scanning => cases appending.symm.trans scanning
    | reconciling _ => rfl
  refine ⟨?_, ?_, ?_⟩
  · intro draft member
    rcases grown draft member with earlier | last
    · exact recalling.fitting draft earlier
    · rw [last]
      exact recalling.prepared position args appending
  · intro other args' later
    rw [later] at away
    cases away
  · intro attached
    rw [away] at attached
    cases attached

theorem Recalling.add {orders : Orders} {watcher after : Lifecycle} {appended : List Draft}
    (recalling : Recalling orders watcher appended)
    (stepped : Lifecycle.step watcher .added = some after) :
    Recalling orders after appended := by
  cases Lifecycle.step_cases stepped with
  | scanFailed error _ => rcases error with error | error <;> cases error
  | added adding =>
      refine recalling.same (by rw [adding]; rfl) rfl ?_
      intro position args appending
      cases appending

theorem appended_of_append {pipeline after : Pipeline} {args : AppendArgs} {eventId : String}
    {ts : Temporal}
    (stepped : Pipeline.step windows pipeline (.append args eventId ts) = some after) :
    ∃ draft : Draft, draft.args = args ∧ after.appended = pipeline.appended ++ [draft] := by
  cases Pipeline.step_cases stepped with
  | appended _ _ => exact ⟨_, rfl, rfl⟩
  | advanced does _ => exact does.elim

theorem appended_of_fail {pipeline after : Pipeline} {args : AppendArgs} {eventId : String}
    {ts : Temporal} {stored : Bool}
    (stepped : Pipeline.step windows pipeline (.fail args eventId ts stored) = some after) :
    ∀ draft ∈ after.appended, draft ∈ pipeline.appended ∨ draft.args = args := by
  intro draft member
  cases Pipeline.step_cases stepped with
  | failed _ => exact Or.inl member
  | unconfirmed _ _ =>
      rcases List.mem_append.mp member with earlier | last
      · exact Or.inl earlier
      · rw [List.mem_singleton.mp last]
        exact Or.inr rfl
  | advanced does _ => exact does.elim

theorem appended_of_other {pipeline after : Pipeline} {action : PipelineAction}
    (other : action = .add ∨ action.alone = true)
    (stepped : Pipeline.step windows pipeline action = some after) :
    after.appended = pipeline.appended := by
  cases Pipeline.step_cases stepped with
  | appended _ _ | failed _ | unconfirmed _ _ =>
      rcases other with add | alone
      · cases add
      · cases alone
  | advanced _ _ => exact Pipeline.broadcast_appended _ _
  | _ => rfl

structure Sound (windows : Windows) (log : EventLog) (tail : Tail) (orders : Orders)
    (table : OrderTable) (service : Service) : Prop where
  shows : table.Shows service.api.orders
  watching : Watching table service.watcher
  recalling : Recalling orders service.watcher service.pipeline.appended
  pipeline : ∃ taken, exec (Pipeline.step windows) { log, tail } taken = some service.pipeline

theorem piped_on {log : EventLog} {tail : Tail} {pipeline after : Pipeline}
    (ran : ∃ taken, exec (Pipeline.step windows) { log, tail } taken = some pipeline)
    {action : PipelineAction} (stepped : Pipeline.step windows pipeline action = some after) :
    ∃ taken, exec (Pipeline.step windows) { log, tail } taken = some after := by
  obtain ⟨taken, reached⟩ := ran
  exact ⟨taken ++ [action], exec_snoc.mpr ⟨pipeline, reached, stepped⟩⟩

theorem sound_step {log : EventLog} {tail : Tail} {orders : Orders} {table : OrderTable}
    (sound : Sound windows log tail orders table service) {action : ServiceAction}
    (uninterrupted : action ≠ .watch .openStream)
    (stepped : step windows service action = some next) :
    Sound windows log tail orders (table.afterAll (table.effects (requests [action]))) next := by
  obtain ⟨shows, watching, recalling, pipeline⟩ := sound
  cases step_cases stepped with
  | @requested request api watcher answered followed =>
      have holds := OrdersApi.step_holds shows answered
      have effects : table.effects (requests [.request request]) =
          (table.effect? request).toList := List.append_nil _
      rw [holds.writes, List.drop_left] at followed
      rw [effects]
      exact ⟨holds.shows, watching.follow followed, recalling.follow followed, pipeline⟩
  | watched alone moved =>
      have stays := mt (congrArg ServiceAction.watch) uninterrupted
      exact ⟨shows, watching.step (alone_ne alone) stays moved, recalling.step alone stays moved, pipeline⟩
  | appended appending moved piped =>
      obtain ⟨draft, rfl, grown⟩ := appended_of_append piped
      refine ⟨shows, ?_, ?_, piped_on pipeline piped⟩
      · exact watching.step (by simp) (by simp) moved
      · rw [grown]
        exact recalling.append appending moved
  | raised appending moved piped =>
      refine ⟨shows, watching.step (by simp) (by simp) moved, ?_, piped_on pipeline piped⟩
      exact recalling.raise appending moved (appended_of_fail piped)
  | added moved piped =>
      refine ⟨shows, watching.step (by simp) (by simp) moved, ?_, piped_on pipeline piped⟩
      rw [appended_of_other (Or.inl rfl) piped]
      exact recalling.add moved
  | piped alone moved =>
      refine ⟨shows, watching, ?_, piped_on pipeline moved⟩
      rw [appended_of_other (Or.inr alone) moved]
      exact recalling

theorem attached_of_drained {watcher : Lifecycle} (drained : watcher.drained = true) :
    watcher.phase.attached = true := by
  unfold Lifecycle.drained at drained
  split at drained
  · rename_i streaming
    rw [streaming]
    rfl
  · cases drained

theorem shownBy_of_current {orderId : String} {record : Option OrderRecord}
    {cached : Option Doc}
    (current : Option.Rel Doc.SameGets cached (record.map (OrderRecord.toDoc orderId))) :
    Option.Rel OrderRecord.ShownBy record (cached.map canonicalDoc) := by
  cases record with
  | none =>
      cases current
      exact .none
  | some record =>
      cases current with
      | @some doc _ same =>
          refine .some ?_
          intro field compared
          have values := same field compared
          rw [record.get_toDoc orderId compared] at values
          exact ⟨doc.get field, values, get_canonicalDoc doc field⟩

theorem requests_append (first second : List ServiceAction) :
    requests (first ++ second) = requests first ++ requests second :=
  List.filterMap_append

def started (api : OrdersApi) (cache : Orders) (log : EventLog) (tail : Tail) : Service where
  api
  watcher := .opened api.orders cache
  pipeline := { log, tail }

theorem sound_of_reached {api : OrdersApi} {cache : Orders} {log : EventLog} {tail : Tail}
    {table : OrderTable} (shows : table.Shows api.orders)
    (accurate : (Lifecycle.opened api.orders cache).Current) {actions : List ServiceAction}
    (uninterrupted : .watch .openStream ∉ actions)
    (reached : exec (step windows) (started api cache log tail) actions = some service) :
    Sound windows log tail (cache.mapValues canonicalDoc)
      (table.afterAll (table.effects (requests actions))) service := by
  have along : Along (step windows) (fun _ _ action => action ≠ .watch .openStream)
      (started api cache log tail) actions := by
    intro before action after split middle _ opens
    subst opens
    apply uninterrupted
    rw [split]
    exact List.mem_append_right before List.mem_cons_self
  refine exec_induction_along (motive := fun actions service =>
    Sound windows log tail (cache.mapValues canonicalDoc)
      (table.afterAll (table.effects (requests actions))) service) ?_ ?_ along reached
  · refine ⟨shows, ⟨shows, ?_, Lifecycle.sound_opened accurate⟩, ⟨?_, ?_, ?_⟩, [], rfl⟩
    · intro position write found
      cases found
    · intro draft member
      cases member
    · intro position args appending
      cases appending
    · intro _ orderId
      exact PyDict.get?_mapValues ..
  · intro actions middle action finish _ sound met stepped
    have onward := sound_step sound met stepped
    rw [requests_append, OrderTable.effects_append, OrderTable.afterAll, List.foldl_append]
    exact onward

/-- From the routes to the client: once the stream is read to its end and nothing of the
order is on its way, a client that started from the orders as recorded when it came shows
the order as the requests left it, and does not show it if they deleted it. -/
theorem client_shows_requested {api : OrdersApi} {cache : Orders} {log : EventLog} {tail : Tail}
    {table : OrderTable} (shows : table.Shows api.orders)
    (accurate : (Lifecycle.opened api.orders cache).Current) {actions : List ServiceAction}
    (uninterrupted : .watch .openStream ∉ actions)
    (reached : exec (step windows) (started api cache log tail) actions = some service)
    (drained : service.watcher.drained = true)
    {orderId : String} (inOrder : InSeqOrderOf orderId service.pipeline.buffer.emitted)
    {reader : Reader} (present : service.pipeline.reader = some reader)
    (settled : service.pipeline.Settled reader orderId) :
    Option.Rel OrderRecord.ShownBy
      ((table.afterAll (table.effects (requests actions))).get? orderId)
      (((reader.received.map Emission.event).foldl applyEvent
        (shown (cache.mapValues canonicalDoc)
          (service.pipeline.appended.take reader.since))).get? orderId) := by
  obtain ⟨-, watching, recalling, taken, ran⟩ :=
    sound_of_reached shows accurate uninterrupted reached
  obtain ⟨_, projected, increasing, joins⟩ := Pipeline.joined_of_reached ran
  obtain ⟨earlier, later, joined⟩ := joins reader present
  rw [joined.shows_newest projected increasing recalling.fitting inOrder settled,
    recalling.recalls (attached_of_drained drained)]
  have current := Lifecycle.current_of_drained watching.sound drained orderId
  rw [Lifecycle.Shows, watching.shows orderId] at current
  exact shownBy_of_current current

def createdAndShipped : List ServiceAction :=
  [.pipe .subscribe,
    .request (.createOrder { customerName := "Rahul Sharma", productName := "ITC 480 FUT" } "1"
      OrdersApi.sampleNow),
    .watch (.deliver 1 none none "first"), .append "first" sampleTime, .add,
    .request (.updateOrder 0 "ord_1" { status := some .shipped } OrdersApi.sampleNow),
    .watch (.deliver 2 none none "second"), .append "second" sampleTime, .add,
    .pipe (.expire 0), .pipe .receive, .pipe .receive]

theorem client_shows_requested_of_shipped :
    ∃ service reader,
      exec (step CohesionBuffer.sampleWindows)
          (started { orders := ∅ } ∅ [] ⟨0, auditGenesisHash⟩) createdAndShipped =
        some service ∧
      service.pipeline.reader = some reader ∧ reader.received.length = 2 ∧
      Option.Rel OrderRecord.ShownBy
        (((∅ : OrderTable).afterAll
          ((∅ : OrderTable).effects (requests createdAndShipped))).get? "ord_1")
        (((reader.received.map Emission.event).foldl applyEvent
          (shown ∅ (service.pipeline.appended.take reader.since))).get? "ord_1") := by
  have ran : (exec (step CohesionBuffer.sampleWindows)
      (started { orders := ∅ } ∅ [] ⟨0, auditGenesisHash⟩) createdAndShipped).map
        (fun service => (service.watcher.drained,
          service.pipeline.buffer.emitted.map fun emission =>
            (emission.event.orderId, emission.event.seq))) =
      some (true, [("ord_1", 1), ("ord_1", 2)]) := by
    decide +kernel
  have left : (exec (step CohesionBuffer.sampleWindows)
      (started { orders := ∅ } ∅ [] ⟨0, auditGenesisHash⟩) createdAndShipped).map
        (fun service => (service.pipeline.handed.isNone, service.pipeline.buffer.held.length,
          service.pipeline.unconfirmed.length, service.pipeline.suppressed.length)) =
      some (true, 0, 0, 0) := by
    decide +kernel
  have heard : (exec (step CohesionBuffer.sampleWindows)
      (started { orders := ∅ } ∅ [] ⟨0, auditGenesisHash⟩) createdAndShipped).map
        (fun service => service.pipeline.reader.map fun reader =>
          (reader.connected, reader.queue.length, reader.received.length)) =
      some (some (true, 0, 2)) := by
    decide +kernel
  obtain ⟨service, reached, facts⟩ := Option.map_eq_some_iff.mp ran
  obtain ⟨drained, emitted⟩ := Prod.mk.inj facts
  rw [reached, Option.map_some, Option.some.injEq] at left heard
  simp only [Prod.mk.injEq, List.length_eq_zero_iff, Option.isNone_iff_eq_none] at left
  obtain ⟨idle, held, confirmed, suppressed⟩ := left
  obtain ⟨reader, present, counts⟩ := Option.map_eq_some_iff.mp heard
  simp only [Prod.mk.injEq, List.length_eq_zero_iff] at counts
  obtain ⟨connected, empty, two⟩ := counts
  refine ⟨service, reader, reached, present, two, ?_⟩
  have shows : OrderTable.Shows ∅ ∅ := by
    intro orderId
    rfl
  refine client_shows_requested shows ?_ ?_ reached drained (InSeqOrder.of ?_ "ord_1") present
    ⟨connected, ?_, ?_, ?_, ?_⟩
  · intro orderId
    exact .none
  · simp [createdAndShipped]
  · rw [CohesionBuffer.inSeqOrder_iff_map, emitted]
    decide
  · rw [empty]
    simp
  · rw [idle]
    simp
  · rw [held]
    simp
  · intro newest _
    rw [confirmed, suppressed]
    simp

end Service

end OrderStream
