import OrderStream.DiffChain
import OrderStream.Routes.Orders

/-! The events that the requests leave in the spine. -/

namespace OrderStream

open Transition

/-- What the spine should hold of a request. -/
structure AuditRow where
  orderId : String
  op : Op
  intent : Intent
  diff : List DiffEntry

namespace OrderRecord

def fields (record : OrderRecord) : List (String × Value) :=
  [("customer_name", .str record.customerName),
    ("product_name", .str record.productName),
    ("status", .str record.status.value),
    ("price", floatValue record.price),
    ("algo_id", strValue record.algoId),
    ("broker_id", strValue record.brokerId),
    ("created_at", .temporal record.createdAt)]

def get (record : OrderRecord) (field : String) : Value :=
  (record.fields.lookup field).getD .null

/-- A price that is NaN counts as changed whenever anything is written. -/
def keepsNan (before : OrderRecord) (payload : OrderUpdate) : Bool :=
  decide (payload.price = none ∧ before.price = some .nan)

def changes (before : OrderRecord) (payload : OrderUpdate) : List DiffEntry :=
  ((payload.updates.filter fun field => !(before.get field.1).pyEq field.2).map fun field =>
      ⟨field.1, before.get field.1, field.2⟩) ++
    if before.keepsNan payload then [⟨"price", .float .nan, .float .nan⟩] else []

def intent (before : OrderRecord) (payload : OrderUpdate) : Intent :=
  if payload.status.any fun status => decide (status ≠ before.status) then
    if payload.status = some .cancelled then .cancellation else .statusChange
  else if !(floatValue before.price).pyEq (floatValue (payload.price.or before.price)) then
    .priceCorrection
  else .other

end OrderRecord

namespace Effect

def row : Effect → AuditRow
  | .created orderId record =>
      { orderId, op := .insert, intent := .newOrder
        diff := record.fields.map fun field => ⟨field.1, .null, field.2⟩ }
  | .patched orderId before payload _ =>
      { orderId, op := .update, intent := before.intent payload
        diff := before.changes payload }
  | .deleted orderId before =>
      { orderId, op := .delete, intent := .deletion
        diff := before.fields.map fun field => ⟨field.1, field.2, .null⟩ }

/-- An update that changes no compared field is not recorded. -/
def audited (effect : Effect) : Bool :=
  !(effect.row.diff.isEmpty && decide (effect.row.op = .update))

end Effect

structure AuditRow.RecordedAs (row : AuditRow) (draft : Draft) : Prop where
  orderId : draft.args.orderId = row.orderId
  op : draft.args.op = row.op
  intent : draft.args.intent = row.intent
  priority : draft.args.priority = intentPriority row.intent
  diff : SameEntries draft.args.diff row.diff

namespace OrderRecord

theorem get?_toDoc (record : OrderRecord) (orderId : String) {field : String}
    (compared : isIgnored field = false) :
    (record.toDoc orderId).get? field = record.fields.lookup field := by
  have ordered : (record.toDoc orderId).entries =
      ("_id", .str orderId) :: (record.fields ++ [("updated_at", .temporal record.updatedAt)]) :=
    rfl
  have named : field ≠ "_id" ∧ field ≠ "updated_at" := by
    simpa [isIgnored, ignoredFields] using compared
  rw [PyDict.get?, ordered, PyDict.lookup_cons_ite, if_neg named.1, List.lookup_append,
    PyDict.lookup_cons_ite, if_neg named.2, List.lookup_nil, Option.or_none]

theorem map_fst_fields (record : OrderRecord) :
    record.fields.map Prod.fst =
      ["customer_name", "product_name", "status", "price", "algo_id", "broker_id",
        "created_at"] :=
  rfl

theorem nodup_fields (record : OrderRecord) : (record.fields.map Prod.fst).Nodup := by
  rw [map_fst_fields]
  decide

theorem get_toDoc (record : OrderRecord) (orderId : String) {field : String}
    (compared : isIgnored field = false) :
    (record.toDoc orderId).get field = record.get field := by
  rw [Doc.get, get?_toDoc record orderId compared, get]

theorem agrees_of_sameGets {left right : OrderRecord} {orderId : String}
    (same : (left.toDoc orderId).SameGets (right.toDoc orderId)) :
    (left.toDoc orderId).Agrees (right.toDoc orderId) := by
  intro field compared
  have values := same field compared
  rw [get_toDoc left orderId compared, get_toDoc right orderId compared, get, get] at values
  rw [get?_toDoc left orderId compared, get?_toDoc right orderId compared]
  have both : left.fields.lookup field = none ↔ right.fields.lookup field = none := by
    rw [PyDict.lookup_eq_none, PyDict.lookup_eq_none, map_fst_fields, map_fst_fields]
  cases first : left.fields.lookup field with
  | none =>
      rw [both.mp first]
      exact .none
  | some value =>
      cases second : right.fields.lookup field with
      | none =>
          rw [both.mpr second] at first
          cases first
      | some other =>
          rw [first, second] at values
          exact .some values

theorem computeDiff_created (record : OrderRecord) (orderId : String) :
    computeDiff none (some (record.toDoc orderId)) =
      record.fields.map fun field => ⟨field.1, .null, field.2⟩ :=
  rfl

theorem computeDiff_deleted (record : OrderRecord) (orderId : String) :
    computeDiff (some (record.toDoc orderId)) none =
      record.fields.map fun field => ⟨field.1, field.2, .null⟩ :=
  rfl

end OrderRecord

theorem Value.pyEq_self_iff {value : Value} :
    value.pyEq value = true ↔ value.spelling.isSome = true := by
  rw [Value.pyEq_iff, Option.isSome_iff_exists]
  simp

theorem changeAt_append (first second : List DiffEntry) (field : String) :
    changeAt (first ++ second) field = (changeAt first field).or (changeAt second field) := by
  induction first with
  | nil => rfl
  | cons entry first ih =>
      rw [List.cons_append, changeAt_cons, changeAt_cons, ih]
      split <;> rfl

theorem changeAt_filter (fields : List (String × Value)) (before : String → Value)
    (differs : String → Value → Bool) (nodup : (fields.map Prod.fst).Nodup) (field : String) :
    changeAt ((fields.filter fun entry => differs entry.1 entry.2).map fun entry =>
        ⟨entry.1, before entry.1, entry.2⟩) field =
      ((fields.lookup field).filter (differs field)).map fun value => (before field, value) := by
  induction fields with
  | nil => rfl
  | cons entry fields ih =>
      rw [List.map_cons, List.nodup_cons] at nodup
      rw [PyDict.lookup_cons_ite, List.filter_cons]
      by_cases same : field = entry.1
      · subst same
        have rest := ih nodup.2
        rw [PyDict.lookup_eq_none.mpr nodup.1] at rest
        by_cases kept : differs entry.1 entry.2 = true
        · rw [if_pos kept, if_pos rfl, List.map_cons, changeAt_cons, if_pos rfl,
            Option.filter_some, if_pos kept]
          rfl
        · rw [if_neg kept, if_pos rfl, rest, Option.filter_some, if_neg kept]
          rfl
      · rw [if_neg same, ← ih nodup.2]
        split
        · rw [List.map_cons, changeAt_cons, if_neg (Ne.symm same)]
        · rfl

namespace OrderRecord

theorem pyEq_get_self (record : OrderRecord) (field : String) :
    (record.get field).pyEq (record.get field) = true ↔
      ¬(field = "price" ∧ record.price = some .nan) := by
  rw [Value.pyEq_self_iff]
  by_cases priced : field = "price"
  · subst priced
    change (floatValue record.price).spelling.isSome = true ↔ _
    cases record.price with
    | none => exact iff_of_true rfl (by simp)
    | some price => cases price <;> simp [floatValue, Value.spelling, PyFloat.magnitude?]
  · refine iff_of_true ?_ (mt And.left priced)
    unfold get
    cases found : record.fields.lookup field with
    | none => rfl
    | some value =>
        have member := (PyDict.lookup_eq_some_iff_mem record.nodup_fields).mp found
        simp only [fields, List.mem_cons, Prod.mk.injEq, List.not_mem_nil, or_false] at member
        rcases member with ⟨-, rfl⟩ | ⟨-, rfl⟩ | ⟨-, rfl⟩ | ⟨price, -⟩ | ⟨-, rfl⟩ | ⟨-, rfl⟩ |
          ⟨-, rfl⟩
        · rfl
        · rfl
        · rfl
        · exact absurd price priced
        · cases record.algoId <;> rfl
        · cases record.brokerId <;> rfl
        · rfl

theorem get_patched (before : OrderRecord) (payload : OrderUpdate) (now : UtcNow)
    {field : String} (compared : isIgnored field = false) :
    (before.patched payload now).get field =
      (payload.updates.lookup field).getD (before.get field) := by
  have timed : field ≠ "updated_at" := by
    rintro rfl
    cases compared
  rw [← get_toDoc _ "" compared, ← toDoc_patched, Doc.get,
    PyDict.get?_update _ (payload.nodup_setFields now), OrderUpdate.setFields,
    List.lookup_append,
    PyDict.lookup_cons_ite, if_neg timed, List.lookup_nil, Option.or_none,
    get?_toDoc before "" compared]
  cases payload.updates.lookup field <;> rfl

theorem changeAt_keptNan (before : OrderRecord) (payload : OrderUpdate) (field : String) :
    changeAt (if before.keepsNan payload then [⟨"price", .float .nan, .float .nan⟩] else [])
        field =
      if field = "price" ∧ payload.price = none ∧ before.price = some .nan then
        some (.float .nan, .float .nan)
      else none := by
  by_cases kept : payload.price = none ∧ before.price = some .nan
  · have keeps : before.keepsNan payload = true := decide_eq_true kept
    rw [if_pos keeps, changeAt_cons]
    by_cases priced : field = "price"
    · rw [if_pos priced.symm, if_pos ⟨priced, kept⟩]
    · rw [if_neg (Ne.symm priced), if_neg (mt And.left priced)]
      rfl
  · have drops : ¬before.keepsNan payload = true := mt of_decide_eq_true kept
    rw [if_neg drops, if_neg (mt And.right kept)]
    rfl

theorem unpriced_iff (payload : OrderUpdate) :
    payload.updates.lookup "price" = none ↔ payload.price = none := by
  rw [payload.lookup_price, Option.map_eq_none_iff]

theorem changeAt_changes (before : OrderRecord) (payload : OrderUpdate) (field : String) :
    changeAt (before.changes payload) field =
      if (before.get field).pyEq ((payload.updates.lookup field).getD (before.get field)) then
        none
      else some (before.get field, (payload.updates.lookup field).getD (before.get field)) := by
  rw [changes, changeAt_append,
    changeAt_filter payload.updates before.get (fun name value => !(before.get name).pyEq value)
      payload.nodup_updates, changeAt_keptNan]
  cases found : payload.updates.lookup field with
  | some value =>
      have apart : ¬(field = "price" ∧ payload.price = none ∧ before.price = some .nan) := by
        rintro ⟨rfl, missing, -⟩
        rw [(unpriced_iff payload).mpr missing] at found
        cases found
      rw [if_neg apart, Option.or_none, Option.filter_some, Option.getD_some]
      cases (before.get field).pyEq value <;> rfl
  | none =>
      rw [Option.filter_none, Option.map_none, Option.none_or, Option.getD_none]
      by_cases equal : (before.get field).pyEq (before.get field) = true
      · rw [if_pos equal, if_neg]
        rintro ⟨priced, -, nan⟩
        exact (before.pyEq_get_self field).mp equal ⟨priced, nan⟩
      · obtain ⟨rfl, nan⟩ := not_not.mp (mt (before.pyEq_get_self field).mpr equal)
        have stays : before.get "price" = .float .nan := congrArg floatValue nan
        rw [if_neg equal, if_pos ⟨rfl, (unpriced_iff payload).mp found, nan⟩, stays]

theorem oncePerField_changes (before : OrderRecord) (payload : OrderUpdate) :
    OncePerField (before.changes payload) := by
  have given : (((payload.updates.filter fun field =>
      !(before.get field.1).pyEq field.2).map fun field =>
        (⟨field.1, before.get field.1, field.2⟩ : DiffEntry)).map DiffEntry.field).Sublist
          (payload.updates.map Prod.fst) := by
    rw [List.map_map]
    exact List.filter_sublist.map Prod.fst
  unfold OncePerField changes
  rw [List.map_append]
  split
  · rename_i keeps
    rw [List.map_singleton, List.nodup_append]
    refine ⟨payload.nodup_updates.sublist given, List.nodup_singleton _, ?_⟩
    rintro field member _ last rfl
    rw [List.mem_singleton.mp last] at member
    have unpriced := (unpriced_iff payload).mpr (of_decide_eq_true keeps).1
    obtain ⟨entry, stored, named⟩ := List.mem_map.mp (given.subset member)
    have differs := List.lookup_eq_none_iff.mp unpriced entry stored
    rw [named] at differs
    exact absurd differs (by decide)
  · rw [List.map_nil, List.append_nil]
    exact payload.nodup_updates.sublist given

/-- The diff of an update lists what the payload changes. -/
theorem changes_same (before : OrderRecord) (orderId : String) (payload : OrderUpdate)
    (now : UtcNow) :
    SameEntries
      (computeDiff (some (before.toDoc orderId))
        (some ((before.patched payload now).toDoc orderId)))
      (before.changes payload) := by
  rw [sameEntries_iff (oncePerField_computeDiff _ _) (before.oncePerField_changes payload)]
  intro field
  have same : changeAt (computeDiff (some (before.toDoc orderId))
      (some ((before.patched payload now).toDoc orderId))) field =
        changeAt (before.changes payload) field := by
    rw [changeAt_computeDiff, changeAt_changes]
    by_cases compared : isIgnored field = false
    · simp only [compared, true_and, Changed, Doc.getOr, get_toDoc, get_patched]
      rw [ite_not]
    · have ungiven : payload.updates.lookup field = none := by
        rw [Option.eq_none_iff_forall_ne_some]
        intro value given
        exact compared (OrderUpdate.compared_of_lookup given)
      have equal : (before.get field).pyEq (before.get field) = true := by
        rw [pyEq_get_self]
        rintro ⟨rfl, -⟩
        exact compared rfl
      rw [if_neg (mt And.left compared), ungiven, Option.getD_none, if_pos equal]
  rw [same]
  exact relRefl (fun _ => ⟨.refl _, .refl _⟩) _

end OrderRecord

theorem contains_field (diff : List DiffEntry) (field : String) :
    (diff.map DiffEntry.field).contains field = (changeAt diff field).isSome := by
  induction diff with
  | nil => rfl
  | cons entry diff ih =>
      rw [List.map_cons, List.contains_cons, ih, changeAt_cons]
      by_cases same : entry.field = field
      · rw [if_pos same, same, beq_self_eq_true]
        rfl
      · rw [if_neg same, beq_false_of_ne (Ne.symm same), Bool.false_or]

theorem fields_of_forall₂ {left right : List DiffEntry}
    (same : List.Forall₂ DiffEntry.Same left right) :
    left.map DiffEntry.field = right.map DiffEntry.field := by
  induction same with
  | nil => rfl
  | cons first _ ih => rw [List.map_cons, List.map_cons, first.1, ih]

theorem SameEntries.contains_field {left right : List DiffEntry} (same : SameEntries left right)
    (field : String) :
    (left.map DiffEntry.field).contains field = (right.map DiffEntry.field).contains field := by
  obtain ⟨matched, moved, pairs⟩ := same
  rw [← fields_of_forall₂ pairs, Bool.eq_iff_iff, List.contains_iff_mem, List.contains_iff_mem,
    (moved.map DiffEntry.field).mem_iff]

theorem intentOf_congr {op : Op} {before before' after after' : Option Doc}
    {diff diff' : List DiffEntry} (first : Option.Rel Doc.Agrees before before')
    (second : Option.Rel Doc.Agrees after after') (same : SameEntries diff diff') :
    intentOf op before after diff = intentOf op before' after' diff' := by
  have compared : isIgnored "status" = false := by decide
  have old := (getOr_same first compared).pyEq_eq (.refl (.str "cancelled"))
  have new := (getOr_same second compared).pyEq_eq (.refl (.str "cancelled"))
  cases op with
  | insert | delete => rfl
  | update | replace => simp only [intentOf, old, new, same.contains_field]

namespace OrderRecord

theorem pyEq_str {left right : String} :
    (Value.str left).pyEq (.str right) = decide (left = right) := by
  rw [Bool.eq_iff_iff, Value.pyEq_str_iff, Value.str.injEq, decide_eq_true_iff]

theorem pyEq_status (left right : OrderStatus) :
    (Value.str left.value).pyEq (.str right.value) = decide (left = right) := by
  rw [pyEq_str, decide_eq_decide]
  exact ⟨OrderStatus.value_injective, congrArg OrderStatus.value⟩

theorem contains_status (before : OrderRecord) (payload : OrderUpdate) :
    ((before.changes payload).map DiffEntry.field).contains "status" =
      payload.status.any fun status => decide (status ≠ before.status) := by
  have stored : before.get "status" = .str before.status.value := rfl
  rw [OrderStream.contains_field, changeAt_changes, payload.lookup_status, stored]
  cases payload.status with
  | none => rw [Option.map_none, Option.getD_none, pyEq_status, decide_eq_true rfl]; rfl
  | some status =>
      rw [Option.map_some, Option.getD_some, pyEq_status, Option.any_some]
      by_cases same : before.status = status
      · rw [decide_eq_true same, decide_eq_false (not_not.mpr same.symm)]
        rfl
      · rw [decide_eq_false same, decide_eq_true (Ne.symm same)]
        rfl

theorem contains_price (before : OrderRecord) (payload : OrderUpdate) :
    ((before.changes payload).map DiffEntry.field).contains "price" =
      !(floatValue before.price).pyEq (floatValue (payload.price.or before.price)) := by
  have stored : before.get "price" = floatValue before.price := rfl
  have written : (payload.price.map Value.float).getD (floatValue before.price) =
      floatValue (payload.price.or before.price) := by
    cases payload.price <;> rfl
  rw [OrderStream.contains_field, changeAt_changes, payload.lookup_price, stored, written]
  cases (floatValue before.price).pyEq (floatValue (payload.price.or before.price)) <;> rfl

theorem intentOf_patched (before : OrderRecord) (orderId : String) (payload : OrderUpdate)
    (now : UtcNow) :
    intentOf .update (some (before.toDoc orderId))
        (some ((before.patched payload now).toDoc orderId)) (before.changes payload) =
      before.intent payload := by
  have old : (Doc.getOr (some (before.toDoc orderId)) "status").pyEq (.str "cancelled") =
      decide (before.status = .cancelled) :=
    pyEq_status before.status .cancelled
  have new : (Doc.getOr (some ((before.patched payload now).toDoc orderId)) "status").pyEq
      (.str "cancelled") = decide (payload.status.getD before.status = .cancelled) :=
    pyEq_status (payload.status.getD before.status) .cancelled
  simp only [intentOf, old, new, contains_status, contains_price, intent]
  cases payload.status with
  | none => simp
  | some status =>
      by_cases same : status = before.status
      · simp [same]
      · by_cases cancelled : status = .cancelled
        · subst cancelled
          simp [same, Ne.symm same]
        · simp [same, cancelled]

end OrderRecord

/-- `updateLookup` finds what the update left. -/
def Delivery.LookedUpAtOnce (delivery : Delivery) : Prop :=
  ∀ orderId doc, delivery.write = .update orderId doc → delivery.lookup = some doc

theorem Recorder.process_of_appendArgs {recorder : Recorder} {delivery : Delivery}
    {result : Option AppendArgs}
    (appended : Watcher.appendArgs recorder.cache delivery.change delivery.write.op
      delivery.correlationId = result) :
    recorder.process delivery =
      .ok (result.elim recorder fun args => recorder.record args delivery) := by
  have prepared : Watcher.prepare recorder.cache delivery.change delivery.correlationId =
      .ok (Watcher.appendArgs recorder.cache delivery.change delivery.write.op
        delivery.correlationId) :=
    delivery.write.prepare_change _ _ _ _ _
  rw [process, prepared, appended]
  cases result with
  | none => rfl
  | some args => rfl

theorem Recorder.process_args {recorder next : Recorder} {delivery : Delivery}
    (processed : recorder.process delivery = .ok next) :
    next.recorded = recorder.recorded ∨ ∃ found draft,
      Watcher.after delivery.write.op delivery.change.fullDocument = some found ∧
        draft.args = Watcher.eventArgs recorder.cache delivery.change delivery.write.op found
          delivery.correlationId ∧
        next.recorded = recorder.recorded ++ [draft] := by
  cases appended : Watcher.appendArgs recorder.cache delivery.change delivery.write.op
      delivery.correlationId with
  | none =>
      rw [process_of_appendArgs appended] at processed
      cases processed
      exact Or.inl rfl
  | some args =>
      rw [process_of_appendArgs appended] at processed
      cases processed
      obtain ⟨found, sees, rfl⟩ := Watcher.appendArgs_eq_some appended
      exact Or.inr ⟨found, _, sees, rfl, rfl⟩

section

variable {table : OrderTable} {orders : Orders} {effect : Effect}

theorem OrderTable.Shows.result (shows : table.Shows orders)
    (fits : table.get? effect.orderId = effect.before) :
    orders.get? effect.orderId =
      effect.before.map (OrderRecord.toDoc effect.orderId) := by
  rw [shows, fits]

theorem Effect.oncePerField_row (effect : Effect) : OncePerField effect.row.diff := by
  cases effect with
  | created _ record => exact record.nodup_fields
  | patched _ before payload _ => exact before.oncePerField_changes payload
  | deleted _ before => exact before.nodup_fields

theorem Effect.ownChange_same (shows : table.Shows orders)
    (fits : table.get? effect.orderId = effect.before) :
    SameEntries (ownChange orders effect.write).diff effect.row.diff := by
  have own : (ownChange orders effect.write).diff =
      computeDiff (effect.before.map (OrderRecord.toDoc effect.orderId))
        (effect.after.map (OrderRecord.toDoc effect.orderId)) := by
    rw [← shows.result fits, ← effect.result_write, ← effect.orderId_write]
    rfl
  rw [own]
  cases effect with
  | created orderId record =>
      simp only [before, after, Effect.orderId, row, Option.map_none, Option.map_some,
        OrderRecord.computeDiff_created]
      exact .refl _
  | patched orderId before payload now =>
      simp only [Effect.before, after, Effect.orderId, row, Option.map_some]
      exact before.changes_same orderId payload now
  | deleted orderId old =>
      simp only [before, after, Effect.orderId, row, Option.map_none, Option.map_some,
        OrderRecord.computeDiff_deleted]
      exact .refl _

theorem Effect.orderId_row (effect : Effect) : effect.row.orderId = effect.write.orderId := by
  cases effect <;> rfl

theorem Effect.op_row (effect : Effect) : effect.row.op = effect.write.op := by
  cases effect <;> rfl

theorem Effect.recordable_iff (shows : table.Shows orders)
    (fits : table.get? effect.orderId = effect.before) :
    (ownChange orders effect.write).recordable = effect.audited := by
  have same := (Effect.ownChange_same shows fits).eq_nil_iff
  rw [← List.isEmpty_iff, ← List.isEmpty_iff, ← Bool.eq_iff_iff] at same
  rw [OwnChange.recordable, audited, same, effect.op_row]
  rfl

theorem Effect.intent_row (shows : table.Shows orders)
    (fits : table.get? effect.orderId = effect.before) :
    intentOf effect.write.op (orders.get? effect.orderId) effect.write.result effect.row.diff =
      effect.row.intent := by
  rw [shows.result fits, effect.result_write]
  cases effect with
  | created orderId record | deleted orderId before => rfl
  | patched orderId before payload now => exact before.intentOf_patched orderId payload now

theorem Effect.inTime {delivery : Delivery} (written : delivery.write = effect.write)
    (atOnce : delivery.LookedUpAtOnce) (shows : table.Shows orders)
    (fits : table.get? effect.orderId = effect.before) : LookedUpInTime orders delivery := by
  intro orderId doc updated
  have looked := atOnce orderId doc updated
  refine ⟨?_, ?_⟩
  · intro found seen
    rw [looked] at seen
    cases seen
    exact .refl _
  · split
    · rename_i quiet
      rw [written] at updated
      cases effect with
      | created _ _ | deleted _ _ => cases updated
      | patched orderId before payload now =>
          cases updated
          have stored : orders.get? orderId = some (before.toDoc orderId) := shows.result fits
          rw [stored] at quiet ⊢
          exact .some (OrderRecord.agrees_of_sameGets (Doc.sameGets_of_quiet quiet))
    · rw [looked]
      rfl

theorem Effect.recordedAs (effect : Effect) {cache : Orders} {delivery : Delivery}
    {found : Option Doc} {draft : Draft} (agree : cache.Agree orders)
    (shows : table.Shows orders) (fits : table.get? effect.orderId = effect.before)
    (valid : effect.write.Valid orders) (written : delivery.write = effect.write)
    (inTime : LookedUpInTime orders delivery)
    (sees : Watcher.after delivery.write.op delivery.change.fullDocument = some found)
    (args : draft.args = Watcher.eventArgs cache delivery.change delivery.write.op found
      delivery.correlationId)
    (same : Records draft (ownChange orders effect.write)) :
    effect.row.RecordedAs draft := by
  have once : OncePerField draft.args.diff := by
    rw [args]
    exact oncePerField_computeDiff _ _
  have diffs : SameEntries draft.args.diff effect.row.diff :=
    same.diff.trans once (oncePerField_computeDiff _ _) effect.oncePerField_row
      (Effect.ownChange_same shows fits)
  have named : delivery.change.orderId = effect.orderId := by
    rw [← effect.orderId_write, ← written]
    rfl
  have intent : draft.args.intent = effect.row.intent := by
    rw [← Effect.intent_row shows fits]
    have before := agree.before valid
    rw [effect.orderId_write] at before
    rcases after_agrees inTime with ⟨other, seen, after⟩ | ⟨unseen, -⟩
    · rw [sees] at seen
      cases seen
      rw [written] at after
      rw [args] at diffs ⊢
      rw [← named, ← written] at before ⊢
      exact intentOf_congr before (written ▸ after) diffs
    · rw [sees] at unseen
      cases unseen
  refine ⟨?_, ?_, intent, ?_, diffs⟩
  · rw [effect.orderId_row]
    exact same.orderId
  · rw [effect.op_row]
    exact same.op
  · rw [← intent, args]
    rfl

theorem Recorder.process_effect {recorder : Recorder} {delivery : Delivery}
    (agree : recorder.cache.Agree orders) (shows : table.Shows orders)
    (fits : table.get? effect.orderId = effect.before)
    (valid : effect.write.Valid orders) (written : delivery.write = effect.write)
    (atOnce : delivery.LookedUpAtOnce) :
    ∃ next recorded, recorder.process delivery = .ok next ∧
      next.cache.Agree (effect.write.apply orders) ∧
      next.recorded = recorder.recorded ++ recorded ∧
      List.Forall₂ AuditRow.RecordedAs (([effect].filter Effect.audited).map Effect.row)
        recorded := by
  have inTime := Effect.inTime written atOnce shows fits
  obtain ⟨next, recorded, processed, agrees, grown, records⟩ :=
    recorder.process_in_time agree (written ▸ valid) inTime
  rw [written] at agrees
  refine ⟨next, recorded, processed, agrees, grown, ?_⟩
  rw [written] at records
  by_cases audited : effect.audited = true
  · rw [List.filter_cons_of_pos (by rw [Effect.recordable_iff shows fits]; exact audited)]
      at records
    obtain ⟨draft, rest, same, none, rfl⟩ := List.forall₂_cons_right_iff.mp records
    rw [List.filter_nil, List.forall₂_nil_right_iff] at none
    subst none
    rw [List.filter_cons_of_pos audited]
    refine .cons ?_ .nil
    rcases process_args processed with silent | ⟨found, other, sees, args, grew⟩
    · rw [silent] at grown
      simp at grown
    · rw [grew, List.append_cancel_left_eq, List.cons.injEq] at grown
      obtain ⟨rfl, -⟩ := grown
      exact effect.recordedAs agree shows fits valid written inTime sees args same
  · rw [List.filter_cons_of_neg (by rw [Effect.recordable_iff shows fits]; exact audited)]
      at records
    rw [List.filter_nil, List.forall₂_nil_right_iff] at records
    subst records
    rw [List.filter_cons_of_neg audited]
    exact .nil

end

theorem Recorder.run_effects {effects : List Effect} {recorder : Recorder} {table : OrderTable}
    {orders : Orders} {deliveries : List Delivery} (agree : recorder.cache.Agree orders)
    (shows : table.Shows orders) (fit : table.Fit effects)
    (written : deliveries.map (·.write) = effects.map Effect.write)
    (atOnce : ∀ delivery ∈ deliveries, delivery.LookedUpAtOnce) :
    ∃ final recorded, recorder.run deliveries = .ok final ∧
      final.recorded = recorder.recorded ++ recorded ∧
      List.Forall₂ AuditRow.RecordedAs ((effects.filter Effect.audited).map Effect.row)
        recorded := by
  induction effects generalizing recorder table orders deliveries with
  | nil =>
      rw [List.map_nil, List.map_eq_nil_iff] at written
      subst written
      exact ⟨recorder, [], rfl, (List.append_nil _).symm, .nil⟩
  | cons effect effects ih =>
      rw [List.map_cons, List.map_eq_cons_iff] at written
      obtain ⟨delivery, rest, rfl, first, others⟩ := written
      rw [List.forall_mem_cons] at atOnce
      have valid : effect.write.Valid orders := (OrderTable.validWrites shows fit).1
      obtain ⟨next, one, processed, agrees, grown, rows⟩ :=
        recorder.process_effect agree shows fit.1 valid first atOnce.1
      obtain ⟨final, more, ran, all, otherRows⟩ :=
        ih agrees (shows.apply effect) fit.2 others atOnce.2
      refine ⟨final, one ++ more, ?_, ?_, ?_⟩
      · rw [run, processed]
        exact ran
      · rw [all, grown, List.append_assoc]
      · rw [← List.singleton_append, List.filter_append, List.map_append]
        exact List.rel_append rows otherRows

namespace OrdersApi

/-- The spine tells the requests apart and in order: what was created, which given fields
had another value, what was deleted. -/
theorem recorded_as_requested {state finish : OrdersApi} {table : OrderTable}
    {actions : List OrdersAction} {recorder : Recorder} {deliveries : List Delivery}
    (shows : table.Shows state.orders) (accurate : recorder.cache.Agree state.orders)
    (reached : exec step state actions = some finish)
    (streamed : finish.writes = state.writes ++ deliveries.map (·.write))
    (atOnce : ∀ delivery ∈ deliveries, delivery.LookedUpAtOnce) :
    ∃ final recorded, recorder.run deliveries = .ok final ∧
      final.recorded = recorder.recorded ++ recorded ∧
      List.Forall₂ AuditRow.RecordedAs
        (((table.effects actions).filter Effect.audited).map Effect.row) recorded := by
  rw [(run_holds shows reached).writes, List.append_cancel_left_eq] at streamed
  exact recorder.run_effects accurate shows (table.fit_effects actions) streamed.symm atOnce

def sampleDeliveries : List Delivery :=
  (sampleTable.effects sampleRequests).map fun effect =>
    { write := effect.write, lookup := effect.write.result, correlationId := "correlation"
      eventId := "event", ts := sampleTime }

theorem recorded_as_requested_of_sample :
    ∃ final recorded,
      Recorder.run ⟨sampleCollection.mapValues Watcher.strip, ⟨0, auditGenesisHash⟩, []⟩
          sampleDeliveries = .ok final ∧
        final.recorded = [] ++ recorded ∧
        List.Forall₂ AuditRow.RecordedAs
          (((sampleTable.effects sampleRequests).filter Effect.audited).map Effect.row)
          recorded := by
  have answered :
      (exec step { orders := sampleCollection } sampleRequests).isSome = true := by
    decide +kernel
  obtain ⟨finish, reached⟩ := Option.isSome_iff_exists.mp answered
  refine recorded_as_requested sampleTable_shows (Orders.agree_warmed sampleCollection) reached
    ?_ ?_
  · rw [(run_holds sampleTable_shows reached).writes, sampleDeliveries, List.map_map]
    rfl
  · intro delivery member orderId doc written
    obtain ⟨effect, -, rfl⟩ := List.mem_map.mp member
    show effect.write.result = some doc
    rw [show effect.write = .update orderId doc from written]
    rfl

end OrdersApi

end OrderStream
