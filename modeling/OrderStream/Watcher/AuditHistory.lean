import OrderStream.Watcher.Agreement

/-! The events that one uninterrupted change stream leaves in the spine. -/

namespace OrderStream

/-- A write as the stream delivers it, with what `updateLookup` found, and the values
drawn when its event is appended. -/
structure Delivery where
  write : Write
  lookup : Option Doc
  resumeToken : Option Doc := none
  clusterTime : Option ClusterTime := none
  correlationId : String
  eventId : String
  ts : Temporal

def Delivery.change (delivery : Delivery) : Change :=
  delivery.write.change delivery.lookup delivery.resumeToken delivery.clusterTime

structure Recorder where
  cache : Orders
  tail : Tail
  recorded : List Draft := []

namespace Recorder

def record (recorder : Recorder) (args : AppendArgs) (delivery : Delivery) : Recorder :=
  let draft : Draft :=
    { args, eventId := delivery.eventId, ts := delivery.ts
      seq := recorder.tail.seq + 1, prevHash := recorder.tail.hash }
  { cache := Watcher.remember recorder.cache args
    tail := ⟨draft.seq, draft.hash⟩
    recorded := recorder.recorded ++ [draft] }

def process (recorder : Recorder) (delivery : Delivery) : Except PyError Recorder :=
  (Watcher.prepare recorder.cache delivery.change delivery.correlationId).map fun
    | none => recorder
    | some args => recorder.record args delivery

def run (recorder : Recorder) : List Delivery → Except PyError Recorder
  | [] => .ok recorder
  | delivery :: rest =>
      match recorder.process delivery with
      | .ok next => next.run rest
      | .error error => .error error

end Recorder

def ValidWrites (orders : Orders) : List Write → Prop
  | [] => True
  | write :: rest => write.Valid orders ∧ ValidWrites (write.apply orders) rest

structure OwnChange where
  orderId : String
  op : Op
  diff : List DiffEntry

def ownChange (orders : Orders) (write : Write) : OwnChange where
  orderId := write.orderId
  op := write.op
  diff := computeDiff (orders.get? write.orderId) write.result

def ownChanges (orders : Orders) : List Write → List OwnChange
  | [] => []
  | write :: rest => ownChange orders write :: ownChanges (write.apply orders) rest

/-- Every change is an event but an update that changes nothing. -/
def OwnChange.recordable (change : OwnChange) : Bool :=
  !(change.diff.isEmpty && decide (change.op = .update))

structure Records (draft : Draft) (change : OwnChange) : Prop where
  orderId : draft.args.orderId = change.orderId
  op : draft.args.op = change.op
  diff : SameEntries draft.args.diff change.diff

/-- Each lookup finds the order as some later write left it. -/
def LooksUp (orders : Orders) : List Delivery → Prop
  | [] => True
  | delivery :: rest =>
      (∃ later, later <+: rest ∧
        delivery.lookup =
          ((later.map (·.write)).foldl (fun orders write => write.apply orders)
            (delivery.write.apply orders)).get? delivery.write.orderId) ∧
      LooksUp (delivery.write.apply orders) rest

/-- The lookup of an update finds what the update left, or nothing where the update
changed no field; such an update does not touch fields that hold null either. -/
def LookedUpInTime (orders : Orders) (delivery : Delivery) : Prop :=
  ∀ orderId doc, delivery.write = .update orderId doc →
    (∀ found, delivery.lookup = some found → found.Agrees doc) ∧
      if computeDiff (orders.get? orderId) (some doc) = [] then
        Option.Rel Doc.Agrees (orders.get? orderId) (some doc)
      else delivery.lookup.isSome = true

def InTime (orders : Orders) : List Delivery → Prop
  | [] => True
  | delivery :: rest =>
      LookedUpInTime orders delivery ∧ InTime (delivery.write.apply orders) rest

def Orders.Agree (cache orders : Orders) : Prop :=
  ∀ orderId, Option.Rel Doc.Agrees (cache.get? orderId) (orders.get? orderId)

section

variable {cache orders : Orders} {delivery : Delivery}

theorem Orders.Agree.remember (agree : cache.Agree orders) {args : AppendArgs}
    {write : Write} (named : args.orderId = write.orderId)
    (after : Option.Rel Doc.Agrees args.after write.result) :
    (Watcher.remember cache args).Agree (write.apply orders) := by
  intro orderId
  by_cases same : orderId = write.orderId
  · subst same
    rw [← named, Watcher.get?_remember_self, named, Write.get?_apply_self]
    exact after
  · rw [Watcher.get?_remember_of_ne _ _ (named ▸ same), Write.get?_apply_of_ne _ _ same]
    exact agree orderId

theorem Orders.agree_warmed (orders : Orders) :
    Orders.Agree (orders.mapValues Watcher.strip) orders := by
  intro orderId
  rw [PyDict.get?_mapValues]
  cases orders.get? orderId with
  | none => exact .none
  | some doc => exact .some (Watcher.strip_agrees doc)

theorem Orders.Agree.quiet (agree : cache.Agree orders) {write : Write}
    (unchanged : Option.Rel Doc.Agrees (orders.get? write.orderId) write.result) :
    cache.Agree (write.apply orders) := by
  intro orderId
  by_cases same : orderId = write.orderId
  · subst same
    rw [Write.get?_apply_self]
    exact relTrans Doc.Agrees (fun _ _ _ => Doc.Agrees.trans) (agree _) unchanged
  · rw [Write.get?_apply_of_ne _ _ same]
    exact agree orderId

theorem Orders.Agree.before (agree : cache.Agree orders) {write : Write}
    (valid : write.Valid orders) :
    Option.Rel Doc.Agrees (Watcher.before cache write.op write.orderId)
      (orders.get? write.orderId) := by
  cases write with
  | insert orderId doc =>
      have absent : orders.get? orderId = none := Option.isNone_iff_eq_none.mp valid
      change Option.Rel Doc.Agrees none (orders.get? orderId)
      rw [absent]
      exact .none
  | update orderId _ | replace orderId _ | delete orderId => exact agree orderId

theorem recordable_eq_false {change : OwnChange} :
    change.recordable = false ↔ change.diff = [] ∧ change.op = .update := by
  simp [OwnChange.recordable]

theorem after_agrees (inTime : LookedUpInTime orders delivery) :
    (∃ found, Watcher.after delivery.write.op delivery.change.fullDocument = some found ∧
        Option.Rel Doc.Agrees found delivery.write.result) ∨
      Watcher.after delivery.write.op delivery.change.fullDocument = none ∧
        (ownChange orders delivery.write).recordable = false := by
  obtain ⟨write, lookup, token, clusterTime, correlationId, eventId, ts⟩ := delivery
  cases write with
  | insert _ doc | replace _ doc =>
      exact Or.inl ⟨_, rfl, .some (Watcher.strip_agrees doc)⟩
  | delete _ => exact Or.inl ⟨_, rfl, .none⟩
  | update orderId doc =>
      obtain ⟨finds, quiet⟩ := inTime orderId doc rfl
      cases lookup with
      | some found =>
          exact Or.inl ⟨_, rfl, .some ((Watcher.strip_agrees found).trans (finds found rfl))⟩
      | none =>
          refine Or.inr ⟨rfl, ?_⟩
          split at quiet
          · rename_i empty
            exact recordable_eq_false.mpr ⟨empty, rfl⟩
          · cases quiet

theorem unchanged_of_not_recordable (inTime : LookedUpInTime orders delivery)
    (silent : (ownChange orders delivery.write).recordable = false) :
    Option.Rel Doc.Agrees (orders.get? delivery.write.orderId) delivery.write.result := by
  obtain ⟨empty, update⟩ := recordable_eq_false.mp silent
  cases written : delivery.write with
  | update orderId doc =>
      have quiet := (inTime orderId doc written).2
      rw [written] at empty
      change computeDiff (orders.get? orderId) (some doc) = [] at empty
      rwa [if_pos empty] at quiet
  | insert _ _ | replace _ _ | delete _ =>
      rw [written] at update
      cases update

end

namespace Recorder

variable {recorder : Recorder} {orders : Orders}

/-- One delivery records the change of its write, if it is one to record. -/
theorem process_in_time (agree : recorder.cache.Agree orders) {delivery : Delivery}
    (valid : delivery.write.Valid orders) (inTime : LookedUpInTime orders delivery) :
    ∃ next recorded, recorder.process delivery = .ok next ∧
      next.cache.Agree (delivery.write.apply orders) ∧
      next.recorded = recorder.recorded ++ recorded ∧
      List.Forall₂ Records recorded
        ([ownChange orders delivery.write].filter OwnChange.recordable) := by
  have prepared : Watcher.prepare recorder.cache delivery.change delivery.correlationId =
      .ok (Watcher.appendArgs recorder.cache delivery.change delivery.write.op
        delivery.correlationId) :=
    delivery.write.prepare_change _ _ _ _ _
  rw [process, prepared]
  have stays (silent : (ownChange orders delivery.write).recordable = false) :
      recorder.cache.Agree (delivery.write.apply orders) :=
    agree.quiet (unchanged_of_not_recordable inTime silent)
  rcases after_agrees inTime with ⟨found, sees, shows⟩ | ⟨unseen, silent⟩
  · have diffs := computeDiff_congr (agree.before valid) shows
    let args := Watcher.eventArgs recorder.cache delivery.change delivery.write.op found
      delivery.correlationId
    have empty : (args.diff.isEmpty ∧ delivery.write.op = .update) ↔
        (ownChange orders delivery.write).recordable = false := by
      rw [recordable_eq_false, List.isEmpty_iff]
      exact and_congr_left fun _ => diffs.eq_nil_iff
    by_cases silent : (ownChange orders delivery.write).recordable = false
    · refine ⟨recorder, [], ?_, stays silent, (List.append_nil _).symm, ?_⟩
      · rw [Watcher.appendArgs_of_after sees, if_pos (empty.mpr silent)]
        rfl
      · rw [List.filter_cons_of_neg (by simp [silent])]
        exact .nil
    · refine ⟨recorder.record args delivery, _, ?_, agree.remember rfl shows, rfl, ?_⟩
      · rw [Watcher.appendArgs_of_after sees, if_neg (mt empty.mp silent)]
        rfl
      · rw [List.filter_cons_of_pos (by simpa using silent)]
        exact .cons ⟨rfl, rfl, diffs⟩ .nil
  · refine ⟨recorder, [], ?_, stays silent, (List.append_nil _).symm, ?_⟩
    · rw [Watcher.appendArgs_of_unseen unseen]
      rfl
    · rw [List.filter_cons_of_neg (by simp [silent])]
      exact .nil

/-- When every lookup comes in time, the events appended are, one by one, the changes of
the writes. -/
theorem audit_history_complete (deliveries : List Delivery)
    (accurate : recorder.cache.Agree orders)
    (valid : ValidWrites orders (deliveries.map (·.write)))
    (inTime : InTime orders deliveries) :
    ∃ final recorded, recorder.run deliveries = .ok final ∧
      final.recorded = recorder.recorded ++ recorded ∧
      List.Forall₂ Records recorded
        ((ownChanges orders (deliveries.map (·.write))).filter OwnChange.recordable) := by
  induction deliveries generalizing recorder orders with
  | nil => exact ⟨recorder, [], rfl, (List.append_nil _).symm, .nil⟩
  | cons delivery rest ih =>
      obtain ⟨next, first, stepped, agree, grown, records⟩ :=
        process_in_time accurate valid.1 inTime.1
      obtain ⟨final, others, ran, all, more⟩ := ih agree valid.2 inTime.2
      refine ⟨final, first ++ others, ?_, ?_, ?_⟩
      · rw [run, stepped]
        exact ran
      · rw [all, grown, List.append_assoc]
      · rw [List.map_cons, ownChanges, ← List.singleton_append, List.filter_append]
        exact List.rel_append records more

def storedOrder (status : String) : Doc :=
  .ofList [("_id", .str "1"), ("status", .str status), ("price", .int 10)]

def sampleOrders : Orders := .ofList [("1", storedOrder "pending")]

def sampleRecorder : Recorder where
  cache := sampleOrders.mapValues Watcher.strip
  tail := ⟨0, auditGenesisHash⟩

def statusUpdate (status lookup : String) : Delivery where
  write := .update "1" (storedOrder status)
  lookup := some (storedOrder lookup)
  correlationId := "correlation"
  eventId := status
  ts := sampleTime

theorem statusUpdate_inTime {orders : Orders} {status : String}
    (changes : computeDiff (orders.get? "1") (some (storedOrder status)) ≠ []) :
    LookedUpInTime orders (statusUpdate status status) := by
  intro orderId doc written
  cases written
  rw [if_neg changes]
  refine ⟨?_, rfl⟩
  intro found equal
  cases equal
  exact Doc.Agrees.refl _

theorem audit_history_complete_of_two :
    ∃ final recorded,
      sampleRecorder.run
          [statusUpdate "validating" "validating", statusUpdate "shipped" "shipped"] =
        .ok final ∧
      final.recorded = sampleRecorder.recorded ++ recorded ∧
      List.Forall₂ Records recorded
        ((ownChanges sampleOrders
          [(statusUpdate "validating" "validating").write,
            (statusUpdate "shipped" "shipped").write]).filter OwnChange.recordable) := by
  apply audit_history_complete
    [statusUpdate "validating" "validating", statusUpdate "shipped" "shipped"]
    (Orders.agree_warmed sampleOrders)
  · exact ⟨by decide +kernel, by decide +kernel, trivial⟩
  · exact ⟨statusUpdate_inTime (by decide +kernel), statusUpdate_inTime (by decide +kernel),
      trivial⟩

theorem update_hidden_by_late_lookup :
    ∃ final,
      sampleRecorder.run
          [statusUpdate "validating" "shipped", statusUpdate "shipped" "shipped"] =
        .ok final ∧
      sampleRecorder.cache.Agree sampleOrders ∧
      ValidWrites sampleOrders
        [(statusUpdate "validating" "shipped").write,
          (statusUpdate "shipped" "shipped").write] ∧
      LooksUp sampleOrders
        [statusUpdate "validating" "shipped", statusUpdate "shipped" "shipped"] ∧
      ¬∃ recorded, final.recorded = sampleRecorder.recorded ++ recorded ∧
        List.Forall₂ Records recorded
          ((ownChanges sampleOrders
            [(statusUpdate "validating" "shipped").write,
              (statusUpdate "shipped" "shipped").write]).filter OwnChange.recordable) := by
  have one : (sampleRecorder.run
      [statusUpdate "validating" "shipped", statusUpdate "shipped" "shipped"]).toOption.map
        (fun final => final.recorded.length) = some 1 := by
    decide +kernel
  cases ran : sampleRecorder.run
      [statusUpdate "validating" "shipped", statusUpdate "shipped" "shipped"] with
  | error error =>
      rw [ran] at one
      cases one
  | ok final =>
      rw [ran] at one
      refine ⟨final, rfl, Orders.agree_warmed sampleOrders,
        ⟨by decide +kernel, by decide +kernel, trivial⟩,
        ⟨⟨[statusUpdate "shipped" "shipped"], List.prefix_rfl, rfl⟩,
          ⟨[], List.prefix_rfl, rfl⟩, trivial⟩, ?_⟩
      rintro ⟨recorded, all, records⟩
      have two : ((ownChanges sampleOrders
          [(statusUpdate "validating" "shipped").write,
            (statusUpdate "shipped" "shipped").write]).filter
              OwnChange.recordable).length = 2 := by
        decide +kernel
      have same := records.length_eq
      have single : final.recorded.length = 1 := Option.some.inj one
      rw [all, List.length_append] at single
      have fresh : sampleRecorder.recorded.length = 0 := rfl
      omega

end Recorder

end OrderStream
