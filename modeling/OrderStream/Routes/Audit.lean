import OrderStream.Routes.Events
import OrderStream.Watcher.Rebuild

/-! The trail of one order as `/audit/order` answers it, and the order rebuilt from the
answer. -/

namespace OrderStream

open Transition

inductive AuditAnswer where
  | ok (orderId : String) (count : Nat) (events : List Doc)
  | serverError

def AuditAnswer.of (orderId : String) (events : List Doc) : AuditAnswer :=
  -- `JSONResponse` raises
  if events.all Doc.isFinite then .ok orderId events.length events else .serverError

/-- The documents that `find({"order_id": order_id})` finds. -/
def isEventOf (orderId : String) (doc : Doc) : Bool :=
  (doc.get "order_id").pyEq (.str orderId)

def auditOrder (log : EventLog) (orderId : String) : AuditAnswer :=
  .of orderId ((sortBySeq (log.filter (isEventOf orderId))).map servedDoc)

def servedEntry : Value → Option (String × Value)
  | .dict [("field", .str field), ("before", _), ("after", value)] => some (field, value)
  | _ => none

def servedDiff (event : Doc) : List (String × Value) :=
  match event.get "diff" with
  | .list entries => entries.filterMap servedEntry
  | _ => []

def servedState (event : Doc) (key : String) : Doc :=
  match event.get key with
  | .dict fields => .ofList fields
  | _ => ∅

def replayServed (doc : Doc) (event : Doc) : Doc :=
  (if (event.get "op").pyEq (.str "insert") then ∅ else doc).update (servedDiff event)

def rebuiltServed (events : List Doc) : Doc :=
  events.foldl replayServed ((events.head?.map fun event => servedState event "before").getD ∅)

/-- The event's hash is the one of what is served, after the event that it names. -/
def Vouched (event : Doc) : Prop :=
  ∃ prev, event.get "prev_hash" = .str prev ∧
    event.get "hash" = .str (computeHash prev (hashPayloadFromDoc event))

namespace Draft

variable (draft : Draft)

def served : Doc := servedDoc draft.storageDoc

theorem get_served {key : String} (member : key ∈ "prev_hash" :: "hash" :: hashedFields) :
    draft.served.get key = draft.storageDoc.get key :=
  get_servedDoc (auditable_storageDoc draft key member)

theorem vouched_served : Vouched draft.served := by
  refine ⟨draft.prevHash, ?_, ?_⟩
  · rw [draft.get_served (by decide), draft.get_prevHash]
  · rw [draft.get_served (by decide), draft.get_hash, Draft.hash, served,
      hashPayloadFromDoc_servedDoc (auditable_storageDoc draft),
      draft.hashPayloadFromDoc_storageDoc]

theorem servedDiff_served :
    servedDiff draft.served = draft.canonDiff.map fun entry => (entry.field, entry.after) := by
  have stored : draft.served.get "diff" = .list (draft.canonDiff.map DiffEntry.modelDump) := by
    rw [draft.get_served (by decide)]
    rfl
  rw [servedDiff, stored]
  induction draft.canonDiff with
  | nil => rfl
  | cons entry rest ih => exact congrArg (List.cons (entry.field, entry.after)) ih

theorem servedState_before :
    servedState draft.served "before" = draft.canonBefore.getD ∅ := by
  have stored : draft.served.get "before" = optionalDoc draft.canonBefore := by
    rw [draft.get_served (by decide)]
    rfl
  rw [servedState, stored]
  cases draft.canonBefore with
  | none => rfl
  | some doc => exact doc.ofList_entries

theorem servedState_after :
    servedState draft.served "after" = draft.canonAfter.getD ∅ := by
  have stored : draft.served.get "after" = optionalDoc draft.canonAfter := by
    rw [draft.get_served (by decide)]
    rfl
  rw [servedState, stored]
  cases draft.canonAfter with
  | none => rfl
  | some doc => exact doc.ofList_entries

theorem replayServed_served (doc : Doc) :
    replayServed doc draft.served = AuditTrail.replay doc draft := by
  have stored : draft.served.get "op" = .str draft.args.op.value := by
    rw [draft.get_served (by decide)]
    rfl
  rw [replayServed, stored, draft.servedDiff_served, AuditTrail.replay, applyDiff]
  cases draft.args.op <;> rfl

end Draft

theorem rebuiltServed_served (events : List Draft) :
    rebuiltServed (events.map Draft.served) = AuditTrail.rebuilt events := by
  have start : ((events.map Draft.served).head?.map fun event =>
      servedState event "before").getD ∅ = (events.head?.bind Draft.canonBefore).getD ∅ := by
    cases events with
    | nil => rfl
    | cons first rest => exact first.servedState_before
  rw [rebuiltServed, AuditTrail.rebuilt, start, List.foldl_map]
  congr 1
  funext doc draft
  exact draft.replayServed_served doc

theorem isEventOf_storageDoc (orderId : String) (draft : Draft) :
    isEventOf orderId draft.storageDoc = true ↔ draft.args.orderId = orderId := by
  change (Value.str draft.args.orderId).pyEq (.str orderId) = true ↔ _
  rw [Value.pyEq_str_iff, Value.str.injEq]

namespace AuditTrail

variable {genesis : String} {trail next : AuditTrail} {orderId : String}

/-- `bootstrap` has returned before the watcher starts, and other processes go on with the
chain and write nothing of the order. -/
def Undivided (genesis orderId : String) (trail : AuditTrail) : AuditAction → Prop
  | .process _ _ => trail.spine.admits (.call sampleArgs) = true
  | .append action => trail.spine.admits action = true
  | .outside log => ∃ docs tail, log = trail.log ++ docs ∧ Built genesis log tail ∧
      ∀ doc ∈ docs, isEventOf orderId doc = false

structure Recorded (genesis orderId : String) (trail : AuditTrail) : Prop where
  built : ∃ tail, Built genesis trail.log tail
  accurate : trail.spine.Accurate genesis trail.log
  events : trail.log.filter (isEventOf orderId) =
    (eventsOf orderId trail.written).map Draft.storageDoc

theorem filter_snoc {log : EventLog} {written : List Draft}
    (events : log.filter (isEventOf orderId) =
      (eventsOf orderId written).map Draft.storageDoc) (draft : Draft) :
    (log ++ [draft.storageDoc]).filter (isEventOf orderId) =
      (eventsOf orderId (written ++ [draft])).map Draft.storageDoc := by
  rw [List.filter_append, events]
  by_cases own : draft.args.orderId = orderId
  · subst own
    rw [eventsOf_snoc_self, List.map_append,
      List.filter_eq_self.mpr (by simp [isEventOf_storageDoc])]
    rfl
  · have other : isEventOf orderId draft.storageDoc = false := by
      rw [← Bool.not_eq_true, isEventOf_storageDoc]
      exact own
    rw [eventsOf_snoc_of_ne written (Ne.symm own), List.filter_eq_nil_iff.mpr (by simp [other]),
      List.append_nil]

theorem Recorded.append (recorded : trail.Recorded genesis orderId) {action : SpineAction}
    {log : EventLog} {spine : EventSpine} (admitted : trail.spine.admits action = true)
    (taken : EventSpine.step genesis (trail.log, trail.spine) action = some (log, spine))
    (cache : Orders) :
    Recorded genesis orderId
      { cache, log, spine, written := trail.writtenAfter action spine.append } := by
  obtain ⟨tail, built⟩ := recorded.built
  obtain ⟨_, last, -, -, rebuilt, accurate⟩ :=
    EventSpine.accurate_step built recorded.accurate admitted taken
  refine ⟨⟨last, rebuilt⟩, accurate, ?_⟩
  cases EventSpine.step_cases taken with
  | inserted inserting stored =>
      obtain ⟨rfl, -⟩ := insertOne_eq_some stored
      exact filter_snoc recorded.events _
  | lost _ | unconfirmed _ _ => cases admitted
  | _ => exact recorded.events

theorem Recorded.step (recorded : trail.Recorded genesis orderId) {action : AuditAction}
    (undivided : Undivided genesis orderId trail action)
    (stepped : step genesis trail action = some next) : next.Recorded genesis orderId := by
  cases action with
  | process change correlationId =>
      cases step_cases stepped with
      | ignored _ => exact recorded
      | @called _ _ args idle prepared =>
          have taken : EventSpine.step genesis (trail.log, trail.spine) (.call args) =
              some (trail.log, { trail.spine with append := .ready args 0 }) := by
            simp only [EventSpine.step, idle]
          have admitted : trail.spine.admits (.call args) = true := undivided
          exact recorded.append admitted taken trail.cache
  | append action =>
      simp only [AuditTrail.step] at stepped
      split at stepped
      · obtain ⟨⟨log, spine⟩, taken, rfl⟩ := Option.map_eq_some_iff.mp stepped
        exact recorded.append undivided taken _
      · cases stepped
  | outside log =>
      cases stepped
      obtain ⟨docs, tail, rfl, built, others⟩ := undivided
      have none : docs.filter (isEventOf orderId) = [] :=
        List.filter_eq_nil_iff.mpr (by simpa using others)
      refine ⟨⟨tail, built⟩, recorded.accurate.extend docs, ?_⟩
      rw [List.filter_append, none, List.append_nil]
      exact recorded.events

/-- The answer to `/audit/order` is the events recorded for the order, as they were recorded,
unless one cannot be served. -/
theorem Recorded.answer (recorded : trail.Recorded genesis orderId) :
    auditOrder trail.log orderId =
      .of orderId ((eventsOf orderId trail.written).map Draft.served) := by
  obtain ⟨tail, built⟩ := recorded.built
  have sorted : sortBySeq (trail.log.filter (isEventOf orderId)) =
      trail.log.filter (isEventOf orderId) :=
    (built.ascending.of_sublist (List.filter_sublist.map _)).sortBySeq_eq
  rw [auditOrder, sorted, recorded.events, List.map_map]
  rfl

/-- What `/audit/order` answers is enough: its events are those recorded of the order, in the
order they were recorded, each vouches for itself, and replaying their diffs comes, up to
`==`, to what the newest of them is served with. -/
theorem answered_trail_rebuilds {log : EventLog} {tail : Tail} (built : Built genesis log tail)
    (fresh : ∀ doc ∈ log, isEventOf orderId doc = false) (cache : Orders)
    {actions : List AuditAction}
    (along : Along (step genesis) (fun _ => Undivided genesis orderId)
      { cache, log, spine := { tail } } actions)
    (reached : exec (step genesis) { cache, log, spine := { tail } } actions = some trail) :
    auditOrder trail.log orderId =
        .of orderId ((eventsOf orderId trail.written).map Draft.served) ∧
      (∀ event ∈ (eventsOf orderId trail.written).map Draft.served, Vouched event) ∧
      ∀ newest, ((eventsOf orderId trail.written).map Draft.served).getLast? = some newest →
        ∀ field, isIgnored field = false →
          ∃ value other : Value, value.Same other ∧
            (rebuiltServed ((eventsOf orderId trail.written).map Draft.served)).get field =
              canonical value ∧
            (servedState newest "after").get field = canonical other := by
  have recorded : trail.Recorded genesis orderId := by
    refine exec_induction_along (motive := fun _ => Recorded genesis orderId) ?_ ?_ along reached
    · refine ⟨⟨tail, built⟩, ⟨built.named, trivial⟩, ?_⟩
      exact List.filter_eq_nil_iff.mpr (by simpa using fresh)
    · intro _ middle action finish _ recorded undivided stepped
      exact recorded.step undivided stepped
  have kept : PhaseKeeps RebuiltBy trail.cache trail.written trail.spine.append := by
    refine exec_invariant
      (motive := fun trail => PhaseKeeps RebuiltBy trail.cache trail.written trail.spine.append)
      ?_ (fun _ _ _ kept stepped => keeps_rebuiltBy.step kept stepped) reached
    intro orderId newest last
    cases last
  refine ⟨recorded.answer, ?_, ?_⟩
  · intro event member
    obtain ⟨draft, -, rfl⟩ := List.mem_map.mp member
    exact draft.vouched_served
  · intro newest last field compared
    rw [List.getLast?_map] at last
    obtain ⟨draft, newestDraft, rfl⟩ := Option.map_eq_some_iff.mp last
    obtain ⟨_, rebuiltBy⟩ := kept.somewhere
    obtain ⟨value, same, shown⟩ := (rebuiltBy orderId draft newestDraft).2 field compared
    refine ⟨value, Doc.getOr draft.args.after field, same, ?_, ?_⟩
    · rw [rebuiltServed_served]
      exact shown
    · rw [draft.servedState_after, Draft.canonAfter]
      cases draft.args.after with
      | none => rfl
      | some doc => exact get_canonicalDoc doc field

def undivided (trail : AuditTrail) : AuditAction → Bool
  | .process _ _ => trail.spine.admits (.call sampleArgs)
  | .append action => trail.spine.admits action
  | .outside _ => false

theorem undivided_of_check {action : AuditAction} (checked : trail.undivided action = true) :
    Undivided genesis orderId trail action := by
  cases action with
  | process _ _ => exact checked
  | append _ => exact checked
  | outside _ => cases checked

theorem answered_trail_rebuilds_of_reinserted :
    ∃ trail newest,
      exec (step auditGenesisHash)
          { cache := ∅, log := [], spine := { tail := ⟨0, auditGenesisHash⟩ } }
          repricedAndReinserted = some trail ∧
        (eventsOf "1" trail.written).length = 4 ∧
        auditOrder trail.log "1" = .of "1" ((eventsOf "1" trail.written).map Draft.served) ∧
        ((eventsOf "1" trail.written).map Draft.served).getLast? = some newest ∧
        ∃ value other : Value, value.Same other ∧
          (rebuiltServed ((eventsOf "1" trail.written).map Draft.served)).get "price" =
            canonical value ∧
          (servedState newest "after").get "price" = canonical other := by
  have facts : (exec (step auditGenesisHash)
      { cache := ∅, log := [], spine := { tail := ⟨0, auditGenesisHash⟩ } }
      repricedAndReinserted).map (fun trail => ((eventsOf "1" trail.written).length,
        ((eventsOf "1" trail.written).map Draft.served).getLast?.isSome)) = some (4, true) := by
    decide +kernel
  have checked : Along (step auditGenesisHash) (fun _ trail action => trail.undivided action = true)
      { cache := ∅, log := [], spine := { tail := ⟨0, auditGenesisHash⟩ } }
      repricedAndReinserted := by
    decide +kernel
  obtain ⟨trail, reached, shape⟩ := Option.map_eq_some_iff.mp facts
  obtain ⟨count, some⟩ := Prod.mk.inj shape
  obtain ⟨newest, last⟩ := Option.isSome_iff_exists.mp some
  have along : Along (step auditGenesisHash) (fun _ => Undivided auditGenesisHash "1")
      { cache := ∅, log := [], spine := { tail := ⟨0, auditGenesisHash⟩ } }
      repricedAndReinserted := by
    intro before action after split middle arrived
    exact undivided_of_check (checked before action after split middle arrived)
  obtain ⟨answer, -, rebuilds⟩ :=
    answered_trail_rebuilds .nil (fun _ member => absurd member List.not_mem_nil) ∅ along reached
  exact ⟨trail, newest, reached, count, answer, last, rebuilds newest last "price" (by decide)⟩

end AuditTrail

end OrderStream
