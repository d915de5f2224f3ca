import OrderStream.Delivery.SnapshotClient
import OrderStream.Delivery.Verifiable
import OrderStream.Theory.Overwrite

/-! The dashboard's table of orders, and the fields an event drops. -/

namespace OrderStream

/-- `state.orders` -/
abbrev OrderRows := PyDict String Doc

/-- `{ ...row, _id: orderId, ...after }` -/
def mergedRow (row : Option Doc) (orderId : String) (after : List (String × Value)) : Doc :=
  ((row.getD ∅).set "_id" (.str orderId)).update after

def applyEventToOrders (orders : OrderRows) (ev : Doc) : OrderRows :=
  match ev.get "order_id" with
  | .str orderId =>
      if (ev.get "op").pyEq (.str "delete") then orders.erase orderId
      else
        match ev.get "after" with
        | .dict after => orders.set orderId (mergedRow (orders.get? orderId) orderId after)
        -- `ev.after` is null
        | _ => orders
  | _ => orders

inductive Cell where
  | row (orderId : String)
  | field (orderId : String) (name : String)

namespace Cell

def orderId : Cell → String
  | row orderId => orderId
  | field orderId _ => orderId

def read (orders : OrderRows) : Cell → Option Value
  | row orderId => (orders.get? orderId).map fun _ => .null
  | field orderId name => (orders.get? orderId).bind fun row => row.get? name

def merged (after : List (String × Value)) : Cell → Option (Option Value)
  | row _ => some (some .null)
  | field orderId name => ((mergedRow none orderId after).get? name).map some

def written (ev : Doc) (cell : Cell) : Option (Option Value) :=
  match ev.get "order_id" with
  | .str orderId =>
      if cell.orderId = orderId then
        if (ev.get "op").pyEq (.str "delete") then some none
        else
          match ev.get "after" with
          | .dict after => cell.merged after
          | _ => none
      else none
  | _ => none

end Cell

theorem written_modelDump (draft : Draft) :
    Cell.written draft.event.modelDump = Cell.written draft.storageDoc := by
  funext cell
  simp [Cell.written, Event.modelDump, Draft.event, Draft.storageDoc, Draft.payloadForHash,
    Doc.get, PyDict.get?, PyDict.lookup_cons_ite]

open AuditTrail (eventsOf eventsOf_snoc_self eventsOf_snoc_of_ne)

section

variable {draft : Draft} {orderId name : String} {rows : OrderRows}

theorem apply_storageDoc (rows : OrderRows) (draft : Draft) :
    applyEventToOrders rows draft.storageDoc =
      if draft.args.op = .delete then rows.erase draft.args.orderId
      else
        match draft.canonAfter with
        | some after => rows.set draft.args.orderId
            (mergedRow (rows.get? draft.args.orderId) draft.args.orderId after.entries)
        | none => rows := by
  have own : draft.storageDoc.get "order_id" = .str draft.args.orderId := by
    simp [Doc.get, PyDict.get?, Draft.storageDoc, Draft.payloadForHash, PyDict.lookup_cons_ite]
  have op : draft.storageDoc.get "op" = .str draft.args.op.value := by
    simp [Doc.get, PyDict.get?, Draft.storageDoc, Draft.payloadForHash, PyDict.lookup_cons_ite]
  have after : draft.storageDoc.get "after" = optionalDoc draft.canonAfter := by
    simp [Doc.get, PyDict.get?, Draft.storageDoc, Draft.payloadForHash, PyDict.lookup_cons_ite]
  have deletes : (draft.args.op = .delete) ↔
      (Value.str draft.args.op.value).pyEq (.str "delete") = true := by
    rw [Value.pyEq_str_iff]
    cases draft.args.op <;> simp [Op.value]
  rw [applyEventToOrders, own, op, after]
  simp only [← deletes]
  split
  · rfl
  · cases draft.canonAfter with
    | none => rfl
    | some after => rfl

theorem get?_mergedRow_of_ne (row : Option Doc) (after : Doc) (ne : name ≠ "_id") :
    (mergedRow row orderId after.entries).get? name =
      (after.get? name).or (row.bind fun row => row.get? name) := by
  rw [mergedRow, PyDict.get?_update _ after.nodup, PyDict.get?_set_of_ne _ _ ne]
  congr 1
  cases row with
  | none => rfl
  | some row => rfl

theorem read_of_other (ne : orderId ≠ draft.args.orderId) :
    (applyEventToOrders rows draft.storageDoc).get? orderId = rows.get? orderId := by
  rw [apply_storageDoc]
  split
  · exact PyDict.get?_erase_of_ne _ ne
  · split
    · exact PyDict.get?_set_of_ne _ _ ne
    · rfl

theorem read_deleted (delete : draft.args.op = .delete) :
    (applyEventToOrders rows draft.storageDoc).get? draft.args.orderId = none := by
  rw [apply_storageDoc, if_pos delete, PyDict.get?_erase_self]

theorem read_merged {after : Doc} (kept : draft.args.op ≠ .delete)
    (given : draft.canonAfter = some after) :
    (applyEventToOrders rows draft.storageDoc).get? draft.args.orderId =
      some (mergedRow (rows.get? draft.args.orderId) draft.args.orderId after.entries) := by
  rw [apply_storageDoc, if_neg kept, given]
  exact PyDict.get?_set_self _ _ _

end

def sinceDeletion (events : List Draft) : List Draft :=
  events.foldl (fun living draft => if draft.args.op = .delete then [] else living ++ [draft]) []

/-- An event since the last deletion has the field, or, without a deletion, the row at the
start. -/
def Given (row : Option Doc) (events : List Draft) (name : String) : Prop :=
  (∃ draft ∈ sinceDeletion events, ∃ after, draft.canonAfter = some after ∧
      after.contains name = true) ∨
    ((∀ draft ∈ events, draft.args.op ≠ .delete) ∧
      ∃ shown, row = some shown ∧ shown.contains name = true)

theorem sinceDeletion_snoc (events : List Draft) (draft : Draft) :
    sinceDeletion (events ++ [draft]) =
      if draft.args.op = .delete then [] else sinceDeletion events ++ [draft] := by
  rw [sinceDeletion, List.foldl_append]
  rfl

section

variable {draft newest : Draft} {drafts : List Draft} {orderId name : String}
  {start : OrderRows} {row : Option Doc} {after : Doc}

theorem given_deleted (delete : draft.args.op = .delete) :
    ¬Given row (drafts ++ [draft]) name := by
  rintro (⟨living, member, -⟩ | ⟨kept, -⟩)
  · rw [sinceDeletion_snoc, if_pos delete] at member
    cases member
  · exact kept draft (by simp) delete

theorem given_snoc (kept : draft.args.op ≠ .delete) (shown : draft.canonAfter = some after) :
    Given row (drafts ++ [draft]) name ↔ after.contains name = true ∨ Given row drafts name := by
  rw [Given, Given, sinceDeletion_snoc, if_neg kept]
  constructor
  · rintro (⟨living, member, doc, given, has⟩ | ⟨all, own⟩)
    · rcases List.mem_append.mp member with earlier | same
      · exact Or.inr (Or.inl ⟨living, earlier, doc, given, has⟩)
      · rw [List.mem_singleton.mp same, shown, Option.some.injEq] at given
        exact Or.inl (given ▸ has)
    · exact Or.inr (Or.inr ⟨fun draft member => all draft (List.mem_append_left _ member), own⟩)
  · rintro (has | ⟨living, member, given⟩ | ⟨all, own⟩)
    · exact Or.inl ⟨draft, by simp, after, shown, has⟩
    · exact Or.inl ⟨living, List.mem_append_left _ member, given⟩
    · refine Or.inr ⟨?_, own⟩
      intro other member
      rcases List.mem_append.mp member with earlier | same
      · exact all other earlier
      · rw [List.mem_singleton.mp same]
        exact kept

/-- A row has the fields that the events since its last deletion give. -/
theorem shown_iff_given (fitting : ∀ draft ∈ drafts, draft.args.Fitting) (ne : name ≠ "_id")
    (start : OrderRows) (orderId : String) :
    (Cell.read ((drafts.map Draft.storageDoc).foldl applyEventToOrders start)
        (.field orderId name)).isSome ↔
      Given (start.get? orderId) (eventsOf orderId drafts) name := by
  induction drafts using List.reverseRecOn with
  | nil =>
      constructor
      · intro shown
        obtain ⟨value, found⟩ := Option.isSome_iff_exists.mp shown
        obtain ⟨row, known, has⟩ := Option.bind_eq_some_iff.mp found
        refine Or.inr ⟨?_, row, known, Option.isSome_iff_exists.mpr ⟨value, has⟩⟩
        intro draft member
        cases member
      · rintro (⟨draft, member, -⟩ | ⟨-, row, known, has⟩)
        · cases member
        · rw [List.map_nil, List.foldl_nil, Cell.read, known]
          exact has
  | append_singleton drafts draft ih =>
      have earlier := ih fun draft member => fitting draft (List.mem_append_left _ member)
      have fits := fitting draft (by simp)
      rw [List.map_append, List.foldl_append, List.map_singleton, List.foldl_cons,
        List.foldl_nil]
      by_cases own : orderId = draft.args.orderId
      · subst own
        rw [eventsOf_snoc_self]
        by_cases delete : draft.args.op = .delete
        · rw [Cell.read, read_deleted delete]
          exact iff_of_false (by simp) (given_deleted delete)
        · obtain ⟨after, given⟩ : ∃ after, draft.canonAfter = some after := by
            obtain ⟨after, given⟩ := Option.ne_none_iff_exists'.mp (mt fits.mpr delete)
            exact ⟨_, by rw [Draft.canonAfter, given]; rfl⟩
          rw [given_snoc delete given, ← earlier, Cell.read, read_merged delete given,
            Option.bind_some, get?_mergedRow_of_ne _ _ ne, Option.isSome_or, Bool.or_eq_true]
          rfl
      · rw [eventsOf_snoc_of_ne _ own, Cell.read, read_of_other own]
        exact earlier

theorem merged_newest (last : (eventsOf orderId drafts).getLast? = some newest)
    (kept : newest.args.op ≠ .delete) (shown : newest.canonAfter = some after)
    (start : OrderRows) :
    ∃ earlier, ((drafts.map Draft.storageDoc).foldl applyEventToOrders start).get? orderId =
      some (mergedRow earlier orderId after.entries) := by
  induction drafts using List.reverseRecOn with
  | nil => cases last
  | append_singleton drafts draft ih =>
      rw [List.map_append, List.foldl_append, List.map_singleton, List.foldl_cons,
        List.foldl_nil]
      by_cases own : orderId = draft.args.orderId
      · subst own
        rw [eventsOf_snoc_self, List.getLast?_concat, Option.some.injEq] at last
        subst last
        exact ⟨_, read_merged kept shown⟩
      · rw [eventsOf_snoc_of_ne _ own] at last
        rw [read_of_other own]
        exact ih last

/-- The dashboard shows an order as its newest event left it iff that event has every field
that the events since the last deletion, or the row at the start, have: a field that an
event drops stays until the order is deleted. -/
theorem row_is_newest_iff (fitting : ∀ draft ∈ drafts, draft.args.Fitting)
    (last : (eventsOf orderId drafts).getLast? = some newest)
    (shown : newest.canonAfter = some after) (start : OrderRows) :
    (∃ row, ((drafts.map Draft.storageDoc).foldl applyEventToOrders start).get? orderId =
        some row ∧ ∀ name, name ≠ "_id" → row.get? name = after.get? name) ↔
      ∀ name, name ≠ "_id" → Given (start.get? orderId) (eventsOf orderId drafts) name →
        after.contains name = true := by
  have stored : newest ∈ drafts := (List.mem_filter.mp (List.mem_of_getLast? last)).1
  have kept : newest.args.op ≠ .delete := by
    intro delete
    rw [Draft.canonAfter, (fitting newest stored).mp delete] at shown
    cases shown
  obtain ⟨earlier, found⟩ := merged_newest last kept shown start
  have given (name : String) (ne : name ≠ "_id") :
      ((mergedRow earlier orderId after.entries).get? name).isSome ↔
        Given (start.get? orderId) (eventsOf orderId drafts) name := by
    rw [← shown_iff_given fitting ne start orderId, Cell.read, found, Option.bind_some]
  constructor
  · rintro ⟨row, same, shows⟩ name ne had
    rw [found, Option.some.injEq] at same
    have has := (given name ne).mpr had
    rw [same, shows name ne] at has
    exact has
  · intro covers
    refine ⟨_, found, ?_⟩
    intro name ne
    cases has : after.get? name with
    | some value => rw [get?_mergedRow_of_ne _ _ ne, has, Option.some_or]
    | none =>
        rw [← Option.not_isSome_iff_eq_none, given name ne]
        intro had
        have contained := covers name ne had
        rw [PyDict.contains, has] at contained
        cases contained

end

def pricedThenUnpriced : List Draft :=
  [{ args := { sampleArgs with
      after := some (.ofList [("status", .str "pending"), ("price", .int 10)]) }
     eventId := "first", ts := sampleTime, seq := 1, prevHash := auditGenesisHash },
    { args := { sampleArgs with
        op := .update
        after := some (.ofList [("status", .str "pending")]) }
      eventId := "second", ts := sampleTime, seq := 2, prevHash := auditGenesisHash }]

theorem row_is_newest_iff_of_unpriced :
    ¬∃ row, ((pricedThenUnpriced.map Draft.storageDoc).foldl applyEventToOrders ∅).get? "1" =
        some row ∧ ∀ name, name ≠ "_id" →
          row.get? name = (PyDict.ofList [("status", .str "pending")] : Doc).get? name := by
  have last : (eventsOf "1" pricedThenUnpriced).getLast? = some pricedThenUnpriced[1] := rfl
  have left : pricedThenUnpriced[1].canonAfter = some (.ofList [("status", .str "pending")]) :=
    rfl
  rw [row_is_newest_iff ?_ last left]
  · intro covers
    have first : pricedThenUnpriced[0] ∈ sinceDeletion (eventsOf "1" pricedThenUnpriced) :=
      List.mem_cons_self
    have kept := covers "price" (by decide) (Or.inl ⟨_, first, _, rfl, rfl⟩)
    cases kept
  · intro draft member
    rcases List.mem_cons.mp member with rfl | same
    · exact iff_of_false (by decide) (by simp)
    · rw [List.mem_singleton.mp same]
      exact iff_of_false (by decide) (by simp)

end OrderStream
