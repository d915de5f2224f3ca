import OrderStream.Demo.Simulator
import OrderStream.Routes.History

/-! The events that the simulator's orders leave in the spine. -/

namespace OrderStream

open Transition

def OrderStatus.rank : OrderStatus → Nat
  | .pending => 0
  | .validating => 1
  | .shipped => 2
  | .delivered | .cancelled => 3

theorem OrderStatus.rank_lt_of_progression {status : OrderStatus} {text : String}
    (listed : text ∈ statusProgression (.str status.value)) :
    ∃ next : OrderStatus, text = next.value ∧ status.rank < next.rank := by
  cases status with
  | pending =>
      rcases List.mem_pair.mp listed with rfl | rfl
      · exact ⟨.validating, rfl, by decide⟩
      · exact ⟨.cancelled, rfl, by decide⟩
  | validating =>
      rcases List.mem_pair.mp listed with rfl | rfl
      · exact ⟨.shipped, rfl, by decide⟩
      · exact ⟨.cancelled, rfl, by decide⟩
  | shipped =>
      rw [List.mem_singleton.mp listed]
      exact ⟨.delivered, rfl, by decide⟩
  | delivered | cancelled => exact absurd listed List.not_mem_nil

/-- New orders, and updates that bring an order forward; no price is NaN. -/
def Effect.Advances : Effect → Prop
  | .created _ record => record.price ≠ some .nan
  | .patched _ before payload now =>
      before.status.rank < (before.patched payload now).status.rank ∧
        (before.price ≠ some .nan → (before.patched payload now).price ≠ some .nan)
  | .deleted _ _ => False

namespace OrderTable

def Priced (table : OrderTable) : Prop :=
  ∀ orderId record, table.get? orderId = some record → record.price ≠ some .nan

theorem Priced.apply {table : OrderTable} {effect : Effect} (priced : table.Priced)
    (fits : table.get? effect.orderId = effect.before) (advances : effect.Advances) :
    (effect.apply table).Priced := by
  intro orderId record found
  by_cases same : orderId = effect.orderId
  · subst same
    rw [Effect.get?_apply_self] at found
    cases effect with
    | created _ _ =>
        cases found
        exact advances
    | patched orderId before payload now =>
        cases found
        exact advances.2 (priced orderId before fits)
    | deleted _ _ => cases found
  · rw [Effect.get?_apply_of_ne _ _ same] at found
    exact priced orderId record found

theorem later_version {effects : List Effect} {table : OrderTable} (fit : table.Fit effects)
    (advance : ∀ effect ∈ effects, effect.Advances) {orderId : String} {record : OrderRecord}
    (found : table.get? orderId = some record) :
    ∃ later, (table.afterAll effects).get? orderId = some later ∧
      (later = record ∨ record.status.rank < later.status.rank) := by
  induction effects generalizing table record with
  | nil => exact ⟨record, found, Or.inl rfl⟩
  | cons effect effects ih =>
      rw [List.forall_mem_cons] at advance
      by_cases same : orderId = effect.orderId
      · subst same
        have stored := fit.1
        rw [found] at stored
        cases effect with
        | created _ _ => cases stored
        | deleted _ _ => exact absurd advance.1 id
        | patched orderId before payload now =>
            cases stored
            have patched : (Effect.apply (.patched orderId record payload now) table).get?
                orderId = some (record.patched payload now) :=
              Effect.get?_apply_self (.patched orderId record payload now) table
            obtain ⟨later, arrives, further⟩ := ih fit.2 advance.2 patched
            refine ⟨later, arrives, Or.inr ?_⟩
            rcases further with rfl | further
            · exact advance.1.1
            · exact advance.1.1.trans further
      · refine ih fit.2 advance.2 ?_
        rw [Effect.get?_apply_of_ne _ _ same, found]

theorem Priced.afterAll {effects : List Effect} {table : OrderTable} (priced : table.Priced)
    (fit : table.Fit effects) (advance : ∀ effect ∈ effects, effect.Advances) :
    (table.afterAll effects).Priced := by
  induction effects generalizing table with
  | nil => exact priced
  | cons effect effects ih =>
      rw [List.forall_mem_cons] at advance
      exact ih (priced.apply fit.1 advance.1) fit.2 advance.2

theorem afterAll_append (table : OrderTable) (first second : List Effect) :
    table.afterAll (first ++ second) = (table.afterAll first).afterAll second :=
  List.foldl_append

theorem Shows.afterAll {table : OrderTable} {orders : Orders} (shows : table.Shows orders)
    (effects : List Effect) :
    (table.afterAll effects).Shows
      ((effects.map Effect.write).foldl (fun orders write => write.apply orders) orders) := by
  induction effects generalizing table orders with
  | nil => exact shows
  | cons effect effects ih => exact ih (shows.apply effect)

theorem fit_of_first {effects seen : List Effect} {table : OrderTable}
    (fit : table.Fit effects) (inside : seen <+: effects) : table.Fit seen := by
  obtain ⟨others, rfl⟩ := inside
  exact (fit_append.mp fit).1

theorem version_in {effects seen : List Effect} {table : OrderTable} (fit : table.Fit effects)
    (advance : ∀ effect ∈ effects, effect.Advances) (inside : seen <+: effects)
    {orderId : String} {record : OrderRecord} (found : table.get? orderId = some record) :
    ∃ later, (table.afterAll seen).get? orderId = some later := by
  obtain ⟨later, arrives, -⟩ := later_version (fit_of_first fit inside)
    (fun effect member => advance effect (inside.subset member)) found
  exact ⟨later, arrives⟩

theorem same_version {effects first second : List Effect} {table : OrderTable}
    (fit : table.Fit effects) (advance : ∀ effect ∈ effects, effect.Advances)
    (firstIn : first <+: effects) (secondIn : second <+: effects) {orderId : String}
    {left right : OrderRecord} (early : (table.afterAll first).get? orderId = some left)
    (late : (table.afterAll second).get? orderId = some right)
    (status : left.status = right.status) : left = right := by
  have ordered {one other : List Effect} (between : one <+: other) (inside : other <+: effects)
      {before after : OrderRecord} (begins : (table.afterAll one).get? orderId = some before)
      (ends : (table.afterAll other).get? orderId = some after)
      (same : before.status = after.status) : after = before := by
    obtain ⟨rest, rfl⟩ := between
    obtain ⟨others, rfl⟩ := inside
    have whole := (fit_append.mp (fit_append.mp fit).1).2
    obtain ⟨later, arrives, further⟩ := later_version whole (fun effect member =>
      advance effect (List.mem_append_left _ (List.mem_append_right _ member))) begins
    rw [afterAll_append, arrives] at ends
    cases ends
    rcases further with equal | further
    · exact equal
    · rw [same] at further
      exact absurd further (Nat.lt_irrefl _)
  rcases List.prefix_or_prefix_of_prefix firstIn secondIn with before | before
  · exact (ordered before secondIn early late status).symm
  · exact ordered before firstIn late early status.symm

end OrderTable

def OrderTable.Cached (table : OrderTable) (effects : List Effect) (cache : Orders) : Prop :=
  ∀ orderId, ∃ later, later <+: effects ∧
    Option.Rel Doc.Agrees (cache.get? orderId)
      ((table.get? orderId).bind fun _ =>
        ((table.afterAll later).get? orderId).map (OrderRecord.toDoc orderId))

/-- Nothing but what new orders and changes of status are recorded as. -/
def AppendArgs.IsProgress (args : AppendArgs) : Prop :=
  (args.intent = .newOrder ∨ args.intent = .statusChange ∨ args.intent = .cancellation) ∧
    (args.op = .update → "status" ∈ args.diff.map DiffEntry.field)

section

variable {table : OrderTable} {effect : Effect} {effects : List Effect} {cache : Orders}

theorem OrderTable.Cached.version (cached : table.Cached effects cache)
    (fit : table.Fit effects) (advance : ∀ change ∈ effects, change.Advances)
    {orderId : String} {record : OrderRecord} (found : table.get? orderId = some record) :
    ∃ known version doc, known <+: effects ∧
      (table.afterAll known).get? orderId = some version ∧
      cache.get? orderId = some doc ∧ doc.Agrees (version.toDoc orderId) := by
  obtain ⟨known, inside, agrees⟩ := cached orderId
  obtain ⟨version, stored⟩ := OrderTable.version_in fit advance inside found
  rw [found, Option.bind_some, stored, Option.map_some] at agrees
  generalize held : cache.get? orderId = copy at agrees
  cases agrees with
  | some agrees => exact ⟨known, version, _, inside, stored, rfl, agrees⟩

theorem OrderTable.Cached.other (cached : table.Cached (effect :: effects) cache)
    {orderId : String} (ne : orderId ≠ effect.orderId) :
    ∃ later, later <+: effects ∧
      Option.Rel Doc.Agrees (cache.get? orderId)
        (((effect.apply table).get? orderId).bind fun _ =>
          (((effect.apply table).afterAll later).get? orderId).map
            (OrderRecord.toDoc orderId)) := by
  obtain ⟨later, inside, agrees⟩ := cached orderId
  rw [Effect.get?_apply_of_ne _ _ ne]
  cases later with
  | nil =>
      refine ⟨[], List.nil_prefix, ?_⟩
      have same : ((effect.apply table).afterAll []).get? orderId =
          (table.afterAll []).get? orderId :=
        Effect.get?_apply_of_ne _ _ ne
      rw [same]
      exact agrees
  | cons first later =>
      obtain ⟨rfl, rest⟩ := List.cons_prefix_cons.mp inside
      exact ⟨later, rest, agrees⟩

theorem OrderTable.Cached.remember (cached : table.Cached (effect :: effects) cache)
    {args : AppendArgs} (named : args.orderId = effect.orderId) {later : List Effect}
    (inside : later <+: effects)
    (agrees : Option.Rel Doc.Agrees args.after
      (((effect.apply table).get? effect.orderId).bind fun _ =>
        (((effect.apply table).afterAll later).get? effect.orderId).map
          (OrderRecord.toDoc effect.orderId))) :
    (effect.apply table).Cached effects (Watcher.remember cache args) := by
  intro orderId
  by_cases same : orderId = effect.orderId
  · subst same
    refine ⟨later, inside, ?_⟩
    rw [← named, Watcher.get?_remember_self, named]
    exact agrees
  · rw [Watcher.get?_remember_of_ne _ _ (named ▸ same)]
    exact cached.other same

theorem intent_of_status {op : Op} (update : op = .update) {before after : Option Doc}
    {diff : List DiffEntry} (moved : (diff.map DiffEntry.field).contains "status" = true) :
    intentOf op before after diff = .statusChange ∨
      intentOf op before after diff = .cancellation := by
  subst update
  simp only [intentOf, moved, Bool.true_and, if_true]
  split
  · exact Or.inr rfl
  · exact Or.inl rfl

theorem computeDiff_self {record : OrderRecord} (priced : record.price ≠ some .nan)
    (orderId : String) :
    computeDiff (some (record.toDoc orderId)) (some (record.toDoc orderId)) = [] := by
  rw [List.eq_nil_iff_forall_not_mem]
  intro entry member
  rw [mem_iff_changeAt (oncePerField_computeDiff _ _), changeAt_computeDiff] at member
  split at member
  · rename_i changed
    obtain ⟨compared, differs⟩ := changed
    apply differs
    rw [record.get_toDoc orderId compared, record.pyEq_get_self]
    exact mt And.right priced
  · cases member

/-- Of two versions of an order, the diff is empty, or tells of the status. -/
theorem versions_diff {before after : Doc} {orderId : String} {left right : OrderRecord}
    (first : before.Agrees (left.toDoc orderId)) (second : after.Agrees (right.toDoc orderId))
    (priced : right.price ≠ some .nan) (one : left.status = right.status → left = right) :
    (left = right ∧ computeDiff (some before) (some after) = []) ∨
      ((computeDiff (some before) (some after)).map DiffEntry.field).contains "status" =
        true := by
  have same := computeDiff_congr (.some first) (.some second)
  by_cases status : left.status = right.status
  · left
    have equal := one status
    subst equal
    exact ⟨rfl, same.eq_nil_iff.mpr (computeDiff_self priced orderId)⟩
  · right
    rw [same.contains_field, contains_field, changeAt_computeDiff, if_pos]
    · rfl
    · refine ⟨by decide, ?_⟩
      show ¬(Value.str left.status.value).pyEq (.str right.status.value) = true
      rw [OrderRecord.pyEq_status, decide_eq_true_iff]
      exact status

end

namespace Recorder

variable {recorder : Recorder} {table : OrderTable} {orders : Orders} {effect : Effect}
  {effects : List Effect} {delivery : Delivery}

theorem process_created {orderId : String} {record : OrderRecord}
    (cached : table.Cached (.created orderId record :: effects) recorder.cache)
    (written : delivery.write = (Effect.created orderId record).write) :
    ∃ next recorded, recorder.process delivery = .ok next ∧
      (Effect.apply (.created orderId record) table).Cached effects next.cache ∧
      next.recorded = recorder.recorded ++ recorded ∧
      ∀ draft ∈ recorded, draft.args.IsProgress := by
  obtain ⟨write, lookup, token, clusterTime, correlationId, eventId, ts⟩ := delivery
  subst written
  let delivery : Delivery :=
    ⟨(Effect.created orderId record).write, lookup, token, clusterTime, correlationId,
      eventId, ts⟩
  let args := Watcher.eventArgs recorder.cache delivery.change .insert
    (some (Watcher.strip (record.toDoc orderId))) correlationId
  have sees : Watcher.after .insert delivery.change.fullDocument =
      some (some (Watcher.strip (record.toDoc orderId))) :=
    rfl
  have appended : Watcher.appendArgs recorder.cache delivery.change .insert correlationId =
      some args := by
    rw [Watcher.appendArgs_of_after sees, if_neg]
    rintro ⟨-, update⟩
    cases update
  refine ⟨recorder.record args delivery, _, process_of_appendArgs appended, ?_, rfl, ?_⟩
  · have stored : (Effect.apply (.created orderId record) table).get? orderId = some record :=
      Effect.get?_apply_self (.created orderId record) table
    refine cached.remember rfl (List.nil_prefix : [] <+: effects) ?_
    show Option.Rel Doc.Agrees (some (Watcher.strip (record.toDoc orderId)))
      (((Effect.apply (.created orderId record) table).get? orderId).bind fun _ =>
        ((Effect.apply (.created orderId record) table).get? orderId).map
          (OrderRecord.toDoc orderId))
    rw [stored]
    exact .some (Watcher.strip_agrees _)
  · intro draft member
    rw [List.mem_singleton.mp member]
    refine ⟨Or.inl rfl, ?_⟩
    intro update
    cases update

theorem process_patched {orderId : String} {before : OrderRecord} {payload : OrderUpdate}
    {now : UtcNow}
    (cached : table.Cached (.patched orderId before payload now :: effects) recorder.cache)
    (fit : table.Fit (.patched orderId before payload now :: effects))
    (advance : ∀ change ∈ .patched orderId before payload now :: effects, change.Advances)
    (priced : table.Priced)
    (written : delivery.write = (Effect.patched orderId before payload now).write)
    {seen : List Effect} (inside : seen <+: effects)
    (looked : delivery.lookup =
      (((Effect.apply (.patched orderId before payload now) table).afterAll seen).get?
        orderId).map (OrderRecord.toDoc orderId)) :
    ∃ next recorded, recorder.process delivery = .ok next ∧
      (Effect.apply (.patched orderId before payload now) table).Cached effects next.cache ∧
      next.recorded = recorder.recorded ++ recorded ∧
      ∀ draft ∈ recorded, draft.args.IsProgress := by
  obtain ⟨write, lookup, token, clusterTime, correlationId, eventId, ts⟩ := delivery
  subst written
  let effect : Effect := .patched orderId before payload now
  let delivery : Delivery :=
    ⟨effect.write, lookup, token, clusterTime, correlationId, eventId, ts⟩
  have patched : (effect.apply table).get? orderId = some (before.patched payload now) :=
    Effect.get?_apply_self effect table
  have later : ∀ change ∈ effects, change.Advances := (List.forall_mem_cons.mp advance).2
  -- the versions that the lookup finds and that the cache holds
  obtain ⟨right, found⟩ := OrderTable.version_in fit.2 later inside patched
  have stored : table.get? orderId = some before := fit.1
  obtain ⟨known, left, doc, within, version, held, copy⟩ := cached.version fit advance stored
  have looks : lookup = some (right.toDoc orderId) := by
    rw [show lookup = _ from looked, show _ = some right from found]
    rfl
  have strips := Watcher.strip_agrees (right.toDoc orderId)
  have shown : Option.Rel Doc.Agrees (some (Watcher.strip (right.toDoc orderId)))
      (((effect.apply table).get? orderId).bind fun _ =>
        (((effect.apply table).afterAll seen).get? orderId).map
          (OrderRecord.toDoc orderId)) := by
    rw [patched, Option.bind_some, found]
    exact .some strips
  have sees : Watcher.after .update delivery.change.fullDocument =
      some (some (Watcher.strip (right.toDoc orderId))) := by
    show Watcher.after .update lookup = _
    rw [looks]
    rfl
  have fresh : (effect.apply table).Priced := priced.apply fit.1 (advance effect List.mem_cons_self)
  have fair := fresh.afterAll (OrderTable.fit_of_first fit.2 inside)
    (fun change member => later change (inside.subset member)) orderId right found
  let args := Watcher.eventArgs recorder.cache delivery.change .update
    (some (Watcher.strip (right.toDoc orderId))) correlationId
  have compares : args.diff =
      computeDiff (some doc) (some (Watcher.strip (right.toDoc orderId))) := by
    rw [← held]
    rfl
  rcases versions_diff copy strips fair (OrderTable.same_version fit advance within
    (List.cons_prefix_cons.mpr ⟨rfl, inside⟩) version found) with ⟨same, quiet⟩ | moved
  · have silent : Watcher.appendArgs recorder.cache delivery.change .update correlationId =
        none := by
      rw [Watcher.appendArgs_of_after sees, if_pos]
      exact ⟨List.isEmpty_iff.mpr (compares.trans quiet), rfl⟩
    refine ⟨recorder, [], process_of_appendArgs silent, ?_, (List.append_nil _).symm, ?_⟩
    · intro other
      by_cases named : other = orderId
      · subst named
        refine ⟨seen, inside, ?_⟩
        rw [patched, Option.bind_some, show _ = some right from found, held, ← same]
        exact .some copy
      · exact cached.other named
    · intro draft member
      cases member
  · have appended : Watcher.appendArgs recorder.cache delivery.change .update correlationId =
        some args := by
      rw [Watcher.appendArgs_of_after sees, if_neg]
      rintro ⟨empty, -⟩
      rw [← compares, List.isEmpty_iff.mp empty] at moved
      cases moved
    refine ⟨recorder.record args delivery, _, process_of_appendArgs appended,
      cached.remember rfl inside shown, rfl, ?_⟩
    intro draft member
    rw [List.mem_singleton.mp member]
    rw [← compares] at moved
    refine ⟨Or.inr (intent_of_status rfl moved), ?_⟩
    intro _
    exact List.contains_iff_mem.mp moved

/-- Every run of the stream, whenever its updates are looked up. -/
theorem run_advances {recorder : Recorder} {table : OrderTable} {orders : Orders}
    {effects : List Effect} {deliveries : List Delivery}
    (cached : table.Cached effects recorder.cache) (shows : table.Shows orders)
    (fit : table.Fit effects) (advance : ∀ effect ∈ effects, effect.Advances)
    (priced : table.Priced) (written : deliveries.map (·.write) = effects.map Effect.write)
    (looksUp : LooksUp orders deliveries) :
    ∃ final recorded, recorder.run deliveries = .ok final ∧
      final.recorded = recorder.recorded ++ recorded ∧
      ∀ draft ∈ recorded, draft.args.IsProgress := by
  induction effects generalizing recorder table orders deliveries with
  | nil =>
      rw [List.map_nil, List.map_eq_nil_iff] at written
      subst written
      refine ⟨recorder, [], rfl, (List.append_nil _).symm, ?_⟩
      intro draft member
      cases member
  | cons effect effects ih =>
      rw [List.map_cons, List.map_eq_cons_iff] at written
      obtain ⟨delivery, rest, rfl, first, others⟩ := written
      obtain ⟨⟨later, inside, looked⟩, looks⟩ := looksUp
      rw [first] at looked looks
      have shows' := shows.apply effect
      have one : ∃ next recorded, recorder.process delivery = .ok next ∧
          (effect.apply table).Cached effects next.cache ∧
          next.recorded = recorder.recorded ++ recorded ∧
          ∀ draft ∈ recorded, draft.args.IsProgress := by
        cases effect with
        | created orderId record => exact process_created cached first
        | deleted orderId before => exact absurd (advance _ List.mem_cons_self) id
        | patched orderId before payload now =>
            have mapped := inside.map (fun delivery : Delivery => delivery.write)
            rw [others, List.prefix_map_iff] at mapped
            obtain ⟨seen, within, same⟩ := mapped
            refine process_patched cached fit advance priced first within ?_
            rw [looked, same]
            exact (shows'.afterAll seen) orderId
      obtain ⟨next, recorded, processed, cached', grown, progress⟩ := one
      obtain ⟨final, more, ran, all, further⟩ :=
        ih cached' shows' fit.2 (List.forall_mem_cons.mp advance).2
          (priced.apply fit.1 (advance effect List.mem_cons_self)) others looks
      refine ⟨final, recorded ++ more, ?_, ?_, ?_⟩
      · rw [run, processed]
        exact ran
      · rw [all, grown, List.append_assoc]
      · exact List.forall_mem_append.mpr ⟨progress, further⟩

end Recorder

theorem OrderTable.Shows.cached {table : OrderTable} {orders cache : Orders}
    (shows : table.Shows orders) (accurate : cache.Agree orders) (effects : List Effect) :
    table.Cached effects cache := by
  intro orderId
  refine ⟨[], List.nil_prefix, ?_⟩
  have same := accurate orderId
  rw [shows] at same
  change Option.Rel Doc.Agrees _ ((table.get? orderId).bind fun _ =>
    (table.get? orderId).map (OrderRecord.toDoc orderId))
  cases found : table.get? orderId with
  | none =>
      rw [found] at same
      exact same
  | some record =>
      rw [found] at same
      exact same

namespace DemoSimulator

structure Follows (state : DemoSimulator) (table : OrderTable) : Prop where
  shows : table.Shows state.api.orders
  priced : table.Priced
  current : ∀ chosen, state.chosen = some chosen → ∃ record,
    table.get? chosen.orderId = some record ∧ chosen.order = record.toDoc chosen.orderId
  cancellable : ∀ orderId order, state.chosen = some (.toCancel orderId order) →
    isCancellable (order.get "status") = true

/-- Requests only create orders, at prices that are numbers. -/
def OnlyCreates : DemoAction → Prop
  | .request (.createOrder payload _ _) => payload.price ≠ some .nan
  | .request _ => False
  | _ => True

structure Advances (state : DemoSimulator) (table : OrderTable) (effects : List Effect)
    (next : DemoSimulator) : Prop where
  holds : state.api.Holds table effects next.api
  fit : table.Fit effects
  advance : ∀ effect ∈ effects, effect.Advances
  follows : next.Follows (table.afterAll effects)

variable {state next : DemoSimulator} {table : OrderTable} {action : DemoAction}

theorem Advances.quiet (follows : state.Follows table)
    (orders : next.api.orders = state.api.orders) (writes : next.api.writes = state.api.writes)
    (idle : next.chosen = none) : state.Advances table [] next := by
  refine ⟨.quiet follows.shows writes orders, trivial, fun _ member => ?_, ?_, follows.priced,
    ?_, ?_⟩
  · cases member
  · show table.Shows next.api.orders
    rw [orders]
    exact follows.shows
  · intro chosen found
    rw [idle] at found
    cases found
  · intro orderId order found
    rw [idle] at found
    cases found

theorem toDoc_statusUpdates (record : OrderRecord) (orderId : String) (status : OrderStatus)
    (price : Option PyFloat) (now : UtcNow) :
    (record.toDoc orderId).update (statusUpdates status.value price now) =
      (record.patched { status := some status, price } now).toDoc orderId := by
  cases price <;> rfl

theorem priced_of_repriced {record : OrderRecord} {orderId : String} {price : PyFloat}
    (priced : record.price ≠ some .nan)
    (allowed : repriced (record.toDoc orderId) price = true) : price ≠ .nan := by
  have stored : (record.toDoc orderId).get? "price" = some (floatValue record.price) := rfl
  rw [repriced, stored, Option.getD_some] at allowed
  cases found : record.price with
  | none =>
      rw [found] at allowed
      cases allowed
  | some old =>
      rw [found] at allowed priced
      have same : price = .nan ↔ old = .nan := of_decide_eq_true allowed
      rw [Ne, same]
      exact fun nan => priced (congrArg some nan)

theorem Advances.written (follows : state.Follows table) {chosen : ChosenOrder}
    (found : state.chosen = some chosen) {status : String} {price : Option PyFloat}
    {now : UtcNow} (listed : status ∈ statusProgression (chosen.order.get "status"))
    (allowed : price.all (repriced chosen.order) = true) :
    ∃ effects, state.Advances table effects
      { api := updateMatched state.api chosen.orderId (statusUpdates status price now)
        chosen := none } := by
  obtain ⟨record, stored, order⟩ := follows.current chosen found
  rw [order] at listed allowed
  have fair := follows.priced _ _ stored
  obtain ⟨reached, rfl, further⟩ :=
    OrderStatus.rank_lt_of_progression (show status ∈ statusProgression
      (.str record.status.value) from listed)
  let payload : OrderUpdate := { status := some reached, price }
  let effect : Effect := .patched chosen.orderId record payload now
  have fits : table.get? effect.orderId = effect.before := stored
  have advances : effect.Advances := by
    refine ⟨further, ?_⟩
    intro _
    show price.or record.price ≠ some .nan
    cases price with
    | none => exact fair
    | some price =>
        intro nan
        exact priced_of_repriced fair allowed (Option.some.inj nan)
  have changes : ¬unmodified (record.toDoc chosen.orderId)
      (statusUpdates reached.value price now) = true := by
    intro same
    have equal := update_of_unmodified same
    rw [toDoc_statusUpdates] at equal
    have stays : record.patched payload now = record :=
      OrderRecord.toDoc_injective chosen.orderId equal
    have status : reached = record.status := congrArg OrderRecord.status stays
    rw [status] at further
    exact absurd further (Nat.lt_irrefl _)
  have performs : updateMatched state.api chosen.orderId
      (statusUpdates reached.value price now) = state.api.perform effect.write := by
    rw [updateMatched, follows.shows, stored]
    show state.api.updateOne _ _ _ = _
    rw [OrdersApi.updateOne, if_neg changes, toDoc_statusUpdates]
    rfl
  rw [performs]
  refine ⟨[effect], .performed follows.shows effect rfl rfl, ⟨fits, trivial⟩, ?_, ?_, ?_, ?_, ?_⟩
  · exact List.forall_mem_singleton.mpr advances
  · exact follows.shows.apply effect
  · exact follows.priced.apply fits advances
  · intro other again
    cases again
  · intro _ _ again
    cases again

theorem Advances.created (follows : state.Follows table) {orderId : String}
    {record : OrderRecord} (absent : table.get? orderId = none)
    (fair : record.price ≠ some .nan)
    (orders : next.api.orders =
      (Effect.created orderId record).write.apply state.api.orders)
    (writes : next.api.writes = state.api.writes ++ [(Effect.created orderId record).write])
    (chosen : next.chosen = state.chosen) :
    state.Advances table [.created orderId record] next := by
  have fits : table.get? (Effect.created orderId record).orderId =
      (Effect.created orderId record).before :=
    absent
  refine ⟨⟨writes, ?_⟩, ⟨fits, trivial⟩, List.forall_mem_singleton.mpr fair, ?_,
    follows.priced.apply fits fair, ?_, ?_⟩
  · rw [orders]
    exact follows.shows.apply _
  · rw [orders]
    exact follows.shows.apply _
  · intro other found
    rw [chosen] at found
    obtain ⟨old, stored, order⟩ := follows.current other found
    refine ⟨old, ?_, order⟩
    have differs : other.orderId ≠ orderId := by
      rintro rfl
      rw [absent] at stored
      cases stored
    show (Effect.apply (.created orderId record) table).get? other.orderId = some old
    rw [Effect.get?_apply_of_ne _ _ differs, stored]
  · intro other order found
    rw [chosen] at found
    exact follows.cancellable other order found

theorem Advances.found (follows : state.Follows table) {chosen : ChosenOrder}
    (stored : state.api.orders.get? chosen.orderId = some chosen.order)
    (cancellable : ∀ orderId order, chosen = .toCancel orderId order →
      isCancellable (order.get "status") = true) :
    state.Advances table [] { state with chosen := some chosen } := by
  refine ⟨.quiet follows.shows rfl rfl, trivial, fun _ member => ?_, follows.shows,
    follows.priced, ?_, ?_⟩
  · cases member
  · intro other same
    cases same
    rw [follows.shows, Option.map_eq_some_iff] at stored
    obtain ⟨record, kept, order⟩ := stored
    exact ⟨record, kept, order.symm⟩
  · intro orderId order same
    cases same
    exact cancellable orderId order rfl

theorem advance_step (follows : state.Follows table) (only : OnlyCreates action)
    (stepped : step state action = some next) :
    ∃ effects, state.Advances table effects next := by
  cases step_cases stepped with
  | @requested request api answered =>
      cases request with
      | updateOrder _ _ _ _ | findUpdated _ | deleteOrder _ => exact absurd only id
      | createOrder payload hex now =>
          cases answered
          unfold OrdersApi.createOrder
          dsimp only
          rw [follows.shows.contains]
          split
          · refine ⟨[], .quiet follows.shows rfl rfl, trivial, ?_,
              ⟨follows.shows, follows.priced, follows.current, follows.cancellable⟩⟩
            intro effect member
            cases member
          · rename_i absent
            have fair : (payload.record now).price ≠ some .nan := only
            exact ⟨_, .created follows (Option.not_isSome_iff_eq_none.mp absent) fair rfl rfl rfl⟩
  | @inserted hex customerName productName price algoId brokerId now idle =>
      unfold insertOne
      dsimp only
      rw [follows.shows.contains]
      split
      · exact ⟨[], .quiet follows rfl rfl idle⟩
      · rename_i absent
        have fair : ((newOrder customerName productName price algoId brokerId).record now).price ≠
            some .nan := by
          intro nan
          cases nan
        exact ⟨_, .created follows (Option.not_isSome_iff_eq_none.mp absent) fair rfl rfl rfl⟩
  | foundToUpdate _ stored _ =>
      refine ⟨[], .found follows stored ?_⟩
      intro _ _ same
      cases same
  | foundToCancel _ stored passed =>
      refine ⟨[], .found follows stored ?_⟩
      intro _ _ same
      cases same
      exact passed
  | updated chosen listed allowed =>
      exact Advances.written follows chosen (mem_progression listed) allowed
  | cancelled chosen =>
      exact Advances.written follows chosen
        (cancelled_mem_progression (follows.cancellable _ _ chosen)) rfl
  | failed => exact ⟨[], .quiet follows rfl rfl rfl⟩

theorem advance_run {actions : List DemoAction} {finish : DemoSimulator}
    (follows : state.Follows table) (only : ∀ action ∈ actions, OnlyCreates action)
    (reached : exec step state actions = some finish) :
    ∃ effects, finish.api.writes = state.api.writes ++ effects.map Effect.write ∧
      table.Fit effects ∧ ∀ effect ∈ effects, effect.Advances := by
  induction actions generalizing state table with
  | nil =>
      cases reached
      refine ⟨[], (List.append_nil _).symm, trivial, ?_⟩
      intro effect member
      cases member
  | cons action actions ih =>
      obtain ⟨next, stepped, after⟩ := Option.bind_eq_some_iff.mp reached
      rw [List.forall_mem_cons] at only
      obtain ⟨first, advances⟩ := advance_step follows only.1 stepped
      obtain ⟨rest, writes, fit, advance⟩ := ih advances.follows only.2 after
      refine ⟨first ++ rest, ?_, OrderTable.fit_append.mpr ⟨advances.fit, fit⟩,
        List.forall_mem_append.mpr ⟨advances.advance, advance⟩⟩
      rw [writes, advances.holds.writes, List.append_assoc, List.map_append]

/-- Whenever the updates are looked up, the simulator's orders are recorded as new orders,
changes of status and cancellations: a price changes only together with a status. -/
theorem records_no_corrections {finish : DemoSimulator} {actions : List DemoAction}
    {recorder : Recorder} {deliveries : List Delivery} (idle : state.chosen = none)
    (shows : table.Shows state.api.orders) (priced : table.Priced)
    (accurate : recorder.cache.Agree state.api.orders)
    (reached : exec step state actions = some finish)
    (only : ∀ action ∈ actions, OnlyCreates action)
    (streamed : finish.api.writes = state.api.writes ++ deliveries.map (·.write))
    (looksUp : LooksUp state.api.orders deliveries) :
    ∃ final recorded, recorder.run deliveries = .ok final ∧
      final.recorded = recorder.recorded ++ recorded ∧
      ∀ draft ∈ recorded, draft.args.IsProgress := by
  have follows : state.Follows table := by
    refine ⟨shows, priced, ?_, ?_⟩
    · intro chosen found
      rw [idle] at found
      cases found
    · intro orderId order found
      rw [idle] at found
      cases found
  obtain ⟨effects, writes, fit, advance⟩ := advance_run follows only reached
  rw [writes, List.append_cancel_left_eq] at streamed
  exact recorder.run_advances (shows.cached accurate effects) shows fit advance priced
    streamed.symm looksUp

def shippedActions : List DemoAction :=
  [.findToUpdate "ord_0", .updateOne "validating" none OrdersApi.sampleNow,
    .findToUpdate "ord_0", .updateOne "shipped" none OrdersApi.sampleNow]

def shippedDoc (status : OrderStatus) : Doc :=
  (OrdersApi.sampleRecord.patched { status := some status } OrdersApi.sampleNow).toDoc "ord_0"

def shippedDelivery (status : OrderStatus) : Delivery where
  write := .update "ord_0" (shippedDoc status)
  lookup := some (shippedDoc .shipped)
  correlationId := "correlation"
  eventId := "event"
  ts := sampleTime

theorem records_no_corrections_of_shipped :
    ∃ final recorded,
      Recorder.run ⟨OrdersApi.sampleCollection.mapValues Watcher.strip,
          ⟨0, auditGenesisHash⟩, []⟩
          [shippedDelivery .validating, shippedDelivery .shipped] = .ok final ∧
        final.recorded = [] ++ recorded ∧
        ∀ draft ∈ recorded, draft.args.IsProgress := by
  have writes : (exec step { api := { orders := OrdersApi.sampleCollection } }
      shippedActions).map (fun finish => finish.api.writes) =
        some [(shippedDelivery .validating).write, (shippedDelivery .shipped).write] := by
    rfl
  obtain ⟨finish, reached, streamed⟩ := Option.map_eq_some_iff.mp writes
  refine records_no_corrections rfl OrdersApi.sampleTable_shows ?_
    (Orders.agree_warmed OrdersApi.sampleCollection) reached ?_ streamed ?_
  · intro orderId record found
    unfold OrdersApi.sampleTable at found
    rw [PyDict.get?_set] at found
    split at found
    · cases found
      intro nan
      cases nan
    · cases found
  · simp [shippedActions, OnlyCreates]
  · exact ⟨⟨[shippedDelivery .shipped], List.prefix_rfl, rfl⟩, ⟨[], List.nil_prefix, rfl⟩,
      trivial⟩

end DemoSimulator

end OrderStream
