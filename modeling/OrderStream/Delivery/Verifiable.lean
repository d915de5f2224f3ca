import OrderStream.Buffer.Coalescing
import OrderStream.Delivery.ReplayCursor

/-! Whether an event that is broadcast can be checked against its own hash. -/

namespace OrderStream

open Transition

/-- `event.model_dump()` -/
def Event.modelDump (event : Event) : Doc where
  entries :=
    [("event_id", .str event.eventId),
      ("seq", .int event.seq),
      ("schema_version", .int event.schemaVersion),
      ("op", .str event.op.value),
      ("intent", .str event.intent.value),
      ("priority", .str event.priority.value),
      ("order_id", .str event.orderId),
      ("diff", .list (event.diff.map DiffEntry.modelDump)),
      ("before", optionalDoc event.before),
      ("after", optionalDoc event.after),
      ("coalesced", .bool event.coalesced),
      ("coalesced_count", .int event.coalescedCount),
      ("resume_token", optionalDoc event.resumeToken),
      ("cluster_time", optionalDoc event.clusterTime),
      ("ts", .temporal event.ts),
      ("correlation_id", optionalText event.correlationId),
      ("prev_hash", .str event.prevHash),
      ("hash", .str event.hash)]
  nodup := by
    simp only [List.map_cons, List.map_nil]
    decide

/-- The event is, in all hashed fields, the stored one of its id, and hashes to its own
hash. -/
structure Verifiable (log : EventLog) (event : Event) : Prop where
  hash : computeHash event.prevHash (hashPayloadFromDoc event.modelDump) = event.hash
  stored : ∃ doc ∈ log, doc.get "event_id" = .str event.eventId ∧
    SameHashedFields event.modelDump doc

def SameCanonical (left right : Value) : Prop :=
  (toCanonical left).SameUpToKeyOrder (toCanonical right)

def diffValue (diff : List DiffEntry) : Value := .list (diff.map DiffEntry.modelDump)

/-- The merged diff and the first `before` read like those of the last event. -/
structure ReadsLikeLast (first last : Event) : Prop where
  diff : SameCanonical (diffValue (mergeDiffs first.diff last.diff)) (diffValue last.diff)
  before : SameCanonical (optionalDoc first.before) (optionalDoc last.before)

def WindowReadsLikeLast (window : List Event) : Prop :=
  ∀ first rest last, window = first :: rest → rest.getLast? = some last →
    ReadsLikeLast first last

instance : DecidableRel SameCanonical :=
  fun _ _ => decidable_of_iff _ Json.dumps_eq_iff

instance (first last : Event) : Decidable (ReadsLikeLast first last) :=
  decidable_of_iff
    (SameCanonical (diffValue (mergeDiffs first.diff last.diff)) (diffValue last.diff) ∧
      SameCanonical (optionalDoc first.before) (optionalDoc last.before))
    ⟨fun reads => ⟨reads.1, reads.2⟩, fun reads => ⟨reads.diff, reads.before⟩⟩

theorem windowReadsLikeLast_iff (window : List Event) :
    (∀ first ∈ window.head?, ∀ last ∈ window.tail.getLast?, ReadsLikeLast first last) ↔
      WindowReadsLikeLast window := by
  constructor
  · rintro reads first rest last rfl ends
    exact reads first rfl last ends
  · intro reads first member last ends
    obtain ⟨rest, rfl⟩ := List.head?_eq_some_iff.mp member
    exact reads first rest last rfl ends

instance (window : List Event) : Decidable (WindowReadsLikeLast window) :=
  decidable_of_iff _ (windowReadsLikeLast_iff window)

section

variable (draft : Draft) (diff : List DiffEntry) (before : Option Doc) (coalesced : Bool)
  (count : Nat)

theorem sameHashedFields_rewritten :
    SameHashedFields
        { draft.event with diff, before, coalesced, coalescedCount := count }.modelDump
        draft.storageDoc ↔
      SameCanonical (diffValue diff) (diffValue draft.event.diff) ∧
        SameCanonical (optionalDoc before) (optionalDoc draft.event.before) := by
  have stamp : toCanonical (.temporal draft.ts) = toCanonical (.str draft.ts.isoformat) := rfl
  simp [SameHashedFields, hashedFields, Event.modelDump, Draft.event, Draft.storageDoc,
    Draft.payloadForHash, Doc.get, PyDict.get?, PyDict.lookup_cons_ite,
    Json.SameUpToKeyOrder, SameCanonical, diffValue, stamp]

end

theorem hash_of_sameHashedFields {draft : Draft} {event : Event}
    (prevHash : event.prevHash = draft.prevHash) (hash : event.hash = draft.hash)
    (same : SameHashedFields event.modelDump draft.storageDoc) :
    computeHash event.prevHash (hashPayloadFromDoc event.modelDump) = event.hash := by
  rw [sameHashedFields_iff, draft.hashPayloadFromDoc_storageDoc] at same
  rw [prevHash, hash, Draft.hash, computeHash, computeHash, hashInput_congr _ same]

namespace Pipeline

variable {windows : Windows} {pipeline next : Pipeline}

def Identified (pipeline : Pipeline) : Prop :=
  ∀ draft ∈ pipeline.appended, ∀ doc ∈ pipeline.log,
    doc.get "event_id" = .str draft.eventId → doc = draft.storageDoc

theorem Identified.snoc (identified : pipeline.Identified)
    (stored : ∀ draft ∈ pipeline.appended, draft.storageDoc ∈ pipeline.log) {draft : Draft}
    {log : EventLog} (inserted : insertOne pipeline.log draft.storageDoc = some log) :
    ∀ known ∈ pipeline.appended ++ [draft], ∀ doc ∈ log,
      doc.get "event_id" = .str known.eventId → doc = known.storageDoc := by
  obtain ⟨rfl, fresh⟩ := insertOne_eq_some inserted
  have apart (doc : Doc) (found : doc ∈ pipeline.log) :
      doc.get "event_id" ≠ .str draft.eventId := by
    intro same
    have distinct := (fresh doc found).2
    rw [same, draft.get_eventId, sameIndexKey_self] at distinct
    cases distinct
  intro known member doc found named
  rcases List.mem_append.mp member with earlier | last
  · rcases List.mem_append.mp found with old | new
    · exact identified known earlier doc old named
    · rw [List.mem_singleton.mp new, draft.get_eventId] at named
      exact absurd (known.get_eventId.trans named.symm) (apart _ (stored known earlier))
  · rw [List.mem_singleton.mp last] at named ⊢
    rcases List.mem_append.mp found with old | new
    · exact absurd named (apart doc old)
    · exact List.mem_singleton.mp new

theorem Identified.step {action : PipelineAction} (identified : pipeline.Identified)
    (stored : ∀ draft ∈ pipeline.appended, draft.storageDoc ∈ pipeline.log)
    (stepped : step windows pipeline action = some next) : next.Identified := by
  cases step_cases stepped with
  | appended _ inserted => exact identified.snoc stored inserted
  | unconfirmed _ inserted => exact identified.snoc stored inserted
  | advanced _ _ =>
      intro draft
      rw [broadcast_appended, broadcast_log]
      exact identified draft
  | failed _ | engaged | released | subscribed _ | received _ _ | disconnected _ =>
      exact identified

theorem identified_of_reached {log : EventLog} {tail : Tail}
    {actions : List PipelineAction}
    (reached : exec (step windows) { log, tail } actions = some pipeline) :
    ∃ buffered, Projected windows pipeline buffered ∧ pipeline.Identified := by
  refine exec_invariant (motive := fun pipeline =>
    ∃ buffered, Projected windows pipeline buffered ∧ pipeline.Identified) ?_ ?_ reached
  · refine ⟨[], projected_init log tail, ?_⟩
    intro draft member
    cases member
  · rintro middle action finish ⟨buffered, projected, identified⟩ stepped
    obtain ⟨later, onward⟩ := projected.step stepped
    exact ⟨_, onward, identified.step projected.stored stepped⟩

theorem verifiable_rewritten_iff (identified : pipeline.Identified)
    (stored : ∀ draft ∈ pipeline.appended, draft.storageDoc ∈ pipeline.log) {draft : Draft}
    (known : draft ∈ pipeline.appended) (diff : List DiffEntry) (before : Option Doc)
    (coalesced : Bool) (count : Nat) :
    Verifiable pipeline.log
        { draft.event with diff, before, coalesced, coalescedCount := count } ↔
      SameCanonical (diffValue diff) (diffValue draft.event.diff) ∧
        SameCanonical (optionalDoc before) (optionalDoc draft.event.before) := by
  rw [← sameHashedFields_rewritten draft diff before coalesced count]
  constructor
  · rintro ⟨-, doc, found, named, same⟩
    rw [identified draft known doc found named] at same
    exact same
  · intro same
    exact ⟨hash_of_sameHashedFields rfl rfl same,
      draft.storageDoc, stored draft known, draft.get_eventId, same⟩

/-- An event can be checked against its hash iff it stands for one event or reads like
the last event of its window. -/
theorem verifiable_iff {buffered : List BufferAction}
    (projected : Projected windows pipeline buffered) (identified : pipeline.Identified)
    {emission : Emission} (emitted : emission ∈ pipeline.buffer.emitted) :
    Verifiable pipeline.log emission.event ↔ WindowReadsLikeLast emission.members := by
  obtain ⟨first, rest, members, stands⟩ :=
    CohesionBuffer.emissions_stand_for projected.reached emission emitted
  have drafted (event : Event) (member : event ∈ first :: rest) :
      ∃ draft ∈ pipeline.appended, draft.event = event :=
    projected.sound event (projected.emission_added emitted (members ▸ member))
  rw [members]
  cases found : rest.getLast? with
  | none =>
      obtain ⟨draft, known, rfl⟩ := drafted first List.mem_cons_self
      rw [List.getLast?_eq_none_iff] at found
      subst found
      rw [stands]
      apply iff_of_true
      · exact (verifiable_rewritten_iff identified projected.stored known draft.event.diff
          draft.event.before draft.event.coalesced draft.event.coalescedCount).mpr ⟨rfl, rfl⟩
      · intro other others last equal ends
        cases equal
        cases ends
  | some last =>
      obtain ⟨draft, known, rfl⟩ :=
        drafted last (List.mem_cons_of_mem _ (List.mem_of_getLast? found))
      rw [found] at stands
      rw [stands]
      refine (verifiable_rewritten_iff identified projected.stored known
        (mergeDiffs first.diff draft.event.diff) first.before true
        emission.members.length).trans ?_
      constructor
      · rintro ⟨diff, before⟩ other others last equal ends
        cases equal
        rw [found] at ends
        cases ends
        exact ⟨diff, before⟩
      · intro reads
        have like := reads first rest draft.event rfl found
        exact ⟨like.diff, like.before⟩

/-- In every run, all events handed to the broker can be checked against their hashes
iff every window is one event or reads like its last. -/
theorem broadcast_verifiable_iff {log : EventLog} {tail : Tail}
    {actions : List PipelineAction}
    (reached : exec (step windows) { log, tail } actions = some pipeline) :
    (∀ emission ∈ pipeline.buffer.emitted, Verifiable pipeline.log emission.event) ↔
      ∀ emission ∈ pipeline.buffer.emitted, WindowReadsLikeLast emission.members := by
  obtain ⟨buffered, projected, identified⟩ := identified_of_reached reached
  constructor
  · intro verifiable emission emitted
    exact (verifiable_iff projected identified emitted).mp (verifiable emission emitted)
  · intro reads emission emitted
    exact (verifiable_iff projected identified emitted).mpr (reads emission emitted)

def pricedArgs (earlier later : Int) : AppendArgs where
  op := .update
  intent := .priceCorrection
  priority := .low
  orderId := "1"
  diff := computeDiff (some (sampleOrder "validating" earlier))
    (some (sampleOrder "validating" later))
  before := some (sampleOrder "validating" earlier)
  after := some (sampleOrder "validating" later)
  resumeToken := none
  clusterTime := none

def revertingRun : List PipelineAction :=
  [.append (pricedArgs 10 20) "first" sampleTime, .add,
    .append (pricedArgs 20 10) "second" sampleTime, .add,
    .append (pricedArgs 10 30) "third" sampleTime, .add, .expire 0]

theorem broadcast_verifiable_of_reverted :
    ∃ pipeline,
      exec (step CohesionBuffer.sampleWindows) { log := [], tail := ⟨0, auditGenesisHash⟩ }
          revertingRun = some pipeline ∧
        pipeline.buffer.emitted.map (fun emission => emission.members.length) = [3] ∧
        ∀ emission ∈ pipeline.buffer.emitted, Verifiable pipeline.log emission.event := by
  have facts : (exec (step CohesionBuffer.sampleWindows)
      { log := [], tail := ⟨0, auditGenesisHash⟩ } revertingRun).map (fun pipeline =>
        pipeline.buffer.emitted.map fun emission =>
          (emission.members.length, decide (WindowReadsLikeLast emission.members))) =
      some [(3, true)] := by
    decide +kernel
  obtain ⟨pipeline, reached, reads⟩ := Option.map_eq_some_iff.mp facts
  obtain ⟨emission, single, one⟩ := List.map_eq_singleton_iff.mp reads
  obtain ⟨count, like⟩ := Prod.mk.inj one
  refine ⟨pipeline, reached, by rw [single, List.map_singleton, count], ?_⟩
  apply (broadcast_verifiable_iff reached).mpr
  intro other member
  rw [single, List.mem_singleton] at member
  rw [member]
  exact of_decide_eq_true like

def coalescingRun : List PipelineAction :=
  [.append statusArgs "first" sampleTime, .add,
    .append (pricedArgs 10 20) "second" sampleTime, .add, .expire 0]

theorem coalesced_event_is_not_verifiable :
    ∃ pipeline emission,
      exec (step CohesionBuffer.sampleWindows) { log := [], tail := ⟨0, auditGenesisHash⟩ }
          coalescingRun = some pipeline ∧
        emission ∈ pipeline.buffer.emitted ∧
        computeHash emission.event.prevHash (hashPayloadFromDoc emission.event.modelDump) ≠
          emission.event.hash ∧
        ¬Verifiable pipeline.log emission.event := by
  have facts : (exec (step CohesionBuffer.sampleWindows)
      { log := [], tail := ⟨0, auditGenesisHash⟩ } coalescingRun).map (fun pipeline =>
        pipeline.buffer.emitted.map fun emission =>
          decide (computeHash emission.event.prevHash
            (hashPayloadFromDoc emission.event.modelDump) = emission.event.hash)) =
      some [false] := by
    decide +kernel
  obtain ⟨pipeline, reached, checks⟩ := Option.map_eq_some_iff.mp facts
  obtain ⟨emission, single, fails⟩ := List.map_eq_singleton_iff.mp checks
  have differs := of_decide_eq_false fails
  exact ⟨pipeline, emission, reached, by simp [single], differs,
    fun verifiable => differs verifiable.hash⟩

end Pipeline

end OrderStream
