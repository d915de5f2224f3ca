import OrderStream.Spine.Canonical

/-! The event log and the `EventSpine` that appends to it, replays it and walks
its hash chain. -/

namespace OrderStream

abbrev EventLog := List Doc

structure AppendArgs where
  op : Op
  intent : Intent
  priority : Priority
  orderId : String
  diff : List DiffEntry
  before : Option Doc
  after : Option Doc
  resumeToken : Option Doc
  clusterTime : Option Doc
  correlationId : Option String := none

/-- What one attempt of `append` fixes before it inserts. -/
structure Draft where
  args : AppendArgs
  eventId : String
  ts : Temporal
  seq : Int
  prevHash : String

def optionalDoc (doc : Option Doc) : Value :=
  match doc with
  | some doc => .dict doc.entries
  | none => .null

def optionalText (text : Option String) : Value :=
  match text with
  | some text => .str text
  | none => .null

namespace Draft

def canonDiff (draft : Draft) : List DiffEntry := draft.args.diff.map canonicalEntry

def canonBefore (draft : Draft) : Option Doc := draft.args.before.map canonicalDoc

def canonAfter (draft : Draft) : Option Doc := draft.args.after.map canonicalDoc

def payloadForHash (draft : Draft) : List (String × Value) :=
  [("event_id", .str draft.eventId),
    ("seq", .int draft.seq),
    ("op", .str draft.args.op.value),
    ("intent", .str draft.args.intent.value),
    ("priority", .str draft.args.priority.value),
    ("order_id", .str draft.args.orderId),
    ("diff", .list (draft.canonDiff.map DiffEntry.modelDump)),
    ("before", optionalDoc draft.canonBefore),
    ("after", optionalDoc draft.canonAfter),
    ("ts", .str draft.ts.isoformat),
    ("schema_version", .int 1),
    ("correlation_id", optionalText draft.args.correlationId)]

def hash (draft : Draft) : String := computeHash draft.prevHash draft.payloadForHash

def storageDoc (draft : Draft) : Doc where
  entries := draft.payloadForHash ++
    [("resume_token", optionalDoc (draft.args.resumeToken.map canonicalDoc)),
      ("cluster_time", optionalDoc (draft.args.clusterTime.map canonicalDoc)),
      ("coalesced", .bool false),
      ("coalesced_count", .int 1),
      ("prev_hash", .str draft.prevHash),
      ("hash", .str draft.hash)]
  nodup := by
    simp only [payloadForHash, List.cons_append, List.nil_append, List.map_cons,
      List.map_nil]
    decide

def event (draft : Draft) : Event where
  eventId := draft.eventId
  seq := draft.seq
  op := draft.args.op
  intent := draft.args.intent
  priority := draft.args.priority
  orderId := draft.args.orderId
  diff := draft.canonDiff
  before := draft.canonBefore
  after := draft.canonAfter
  ts := draft.ts
  resumeToken := draft.args.resumeToken
  clusterTime := draft.args.clusterTime
  correlationId := draft.args.correlationId
  prevHash := draft.prevHash
  hash := draft.hash

end Draft

def subscript (doc : Doc) (key : String) : Except PyError Value :=
  match doc.get? key with
  | some value => .ok value
  | none => .error (.keyError key)

/-- `find().sort("seq", 1)` -/
def sortBySeq (log : EventLog) : EventLog :=
  log.insertionSort fun left right => bsonLe (left.get "seq") (right.get "seq") = true

/-- Two values a unique index does not tell apart. -/
def sameIndexKey (left right : Value) : Bool :=
  decide (bsonRank left = bsonRank right) && left.pyEq right

/-- `insert_one` under the unique indexes of `ensure_indexes`; `none` is
`DuplicateKeyError`. -/
def insertOne (log : EventLog) (doc : Doc) : Option EventLog :=
  if log.any (fun stored => sameIndexKey (stored.get "seq") (doc.get "seq") ||
      sameIndexKey (stored.get "event_id") (doc.get "event_id")) then
    none
  else
    some (log ++ [doc])

/-- `(_last_seq, _last_hash)` -/
structure Tail where
  seq : Int
  hash : String
  deriving DecidableEq

/-- What `_refresh_head` assigns.  A hash that is no text fails where it is
encoded. -/
def refreshHead (genesis : String) (log : EventLog) : Except PyError Tail :=
  match (sortBySeq log).getLast? with
  | none => .ok ⟨0, genesis⟩
  | some last => do
      let hash ← subscript last "hash"
      let seq ← subscript last "seq"
      let seq ← pyInt seq
      match hash with
      | .str hash => .ok ⟨seq, hash⟩
      | _ => .error .attributeError

/-- `_last_hash` is assigned before `int(last["seq"])` raises. -/
def refreshFailed (log : EventLog) (tail : Tail) : Tail :=
  match (sortBySeq log).getLast? with
  | none => tail
  | some last =>
      match last.get? "hash" with
      | some (.str hash) => { tail with hash }
      | _ => tail

/-! `append`, one step for each stretch between two suspensions.  The lock lets
one call in at a time. -/

inductive AppendPhase where
  | idle
  | ready (args : AppendArgs) (attempt : Nat)
  | inserting (draft : Draft) (attempt : Nat)
  | stored (draft : Draft)
  | conflict (args : AppendArgs) (attempt : Nat)
  | refreshing (args : AppendArgs) (attempt : Nat) (found : Tail)

instance : (phase : AppendPhase) → Decidable (phase = .idle)
  | .idle => isTrue rfl
  | .ready _ _ | .inserting _ _ | .stored _ | .conflict _ _ | .refreshing _ _ _ =>
      isFalse (by simp)

/-- A call of `_refresh_head` that does not hold the lock. -/
inductive RefreshPhase where
  | idle
  | reading
  | read (found : Tail)

structure EventSpine where
  tail : Tail
  append : AppendPhase := .idle
  refresh : RefreshPhase := .idle

/-- `audit_genesis_hash`, as it is set when nobody sets it. -/
def auditGenesisHash : String := String.ofList (List.replicate 64 '0')

theorem length_auditGenesisHash : auditGenesisHash.toList.length = 64 := by
  unfold auditGenesisHash
  rw [String.toList_ofList]
  exact List.length_replicate

def EventSpine.init (genesis : String) : EventSpine where
  tail := ⟨0, genesis⟩

/-- `fail` is an error of `insert_one` other than `DuplicateKeyError`, before or
after the server stored the document. -/
inductive SpineAction where
  | call (args : AppendArgs)
  | take (eventId : String) (ts : Temporal)
  | insert
  | fail (stored : Bool)
  | finish
  | find
  | assign
  | giveUp
  | refreshCall
  | refreshRead
  | refreshAssign

namespace EventSpine

def take (spine : EventSpine) (args : AppendArgs) (attempt : Nat) (eventId : String)
    (ts : Temporal) : EventSpine :=
  { spine with
    tail := { spine.tail with seq := spine.tail.seq + 1 }
    append := .inserting
      { args, eventId, ts, seq := spine.tail.seq + 1, prevHash := spine.tail.hash }
      attempt }

def step (genesis : String) (state : EventLog × EventSpine) (action : SpineAction) :
    Option (EventLog × EventSpine) :=
  let (log, spine) := state
  match action, spine.append with
  | .call args, .idle => some (log, { spine with append := .ready args 0 })
  | .take eventId ts, .ready args attempt =>
      if attempt < 5 then some (log, spine.take args attempt eventId ts) else none
  | .giveUp, .ready _ attempt =>
      -- `RuntimeError("event spine append failed after 5 retries")`
      if attempt < 5 then none else some (log, { spine with append := .idle })
  | .insert, .inserting draft attempt =>
      match insertOne log draft.storageDoc with
      | some log => some (log, { spine with append := .stored draft })
      | none => some (log, { spine with append := .conflict draft.args attempt })
  | .fail false, .inserting _ _ => some (log, { spine with append := .idle })
  | .fail true, .inserting draft _ =>
      (insertOne log draft.storageDoc).map fun log =>
        (log, { spine with append := .idle })
  | .finish, .stored draft =>
      some (log, { spine with
        tail := { spine.tail with hash := draft.hash }
        append := .idle })
  | .find, .conflict args attempt =>
      match refreshHead genesis log with
      | .ok found => some (log, { spine with append := .refreshing args attempt found })
      | .error _ =>
          some (log, { spine with tail := refreshFailed log spine.tail, append := .idle })
  | .assign, .refreshing args attempt found =>
      some (log, { spine with tail := found, append := .ready args (attempt + 1) })
  | .refreshCall, _ =>
      match spine.refresh with
      | .idle => some (log, { spine with refresh := .reading })
      | _ => none
  | .refreshRead, _ =>
      match spine.refresh with
      | .reading =>
          match refreshHead genesis log with
          | .ok found => some (log, { spine with refresh := .read found })
          | .error _ =>
              some (log, { spine with
                tail := refreshFailed log spine.tail
                refresh := .idle })
      | _ => none
  | .refreshAssign, _ =>
      match spine.refresh with
      | .read found => some (log, { spine with tail := found, refresh := .idle })
      | _ => none
  | _, _ => none

inductive Step (genesis : String) :
    EventLog → EventSpine → SpineAction → EventLog → EventSpine → Prop where
  | call {args : AppendArgs} : spine.append = .idle →
      Step genesis log spine (.call args) log { spine with append := .ready args 0 }
  | take {eventId : String} {ts : Temporal} :
      spine.append = .ready args attempt → attempt < 5 →
        Step genesis log spine (.take eventId ts) log (spine.take args attempt eventId ts)
  | giveUp : spine.append = .ready args attempt → ¬attempt < 5 →
      Step genesis log spine .giveUp log { spine with append := .idle }
  | inserted : spine.append = .inserting draft attempt →
      insertOne log draft.storageDoc = some next →
        Step genesis log spine .insert next { spine with append := .stored draft }
  | duplicate : spine.append = .inserting draft attempt →
      insertOne log draft.storageDoc = none →
        Step genesis log spine .insert log
          { spine with append := .conflict draft.args attempt }
  | lost : spine.append = .inserting draft attempt →
      Step genesis log spine (.fail false) log { spine with append := .idle }
  | unconfirmed : spine.append = .inserting draft attempt →
      insertOne log draft.storageDoc = some next →
        Step genesis log spine (.fail true) next { spine with append := .idle }
  | finish : spine.append = .stored draft →
      Step genesis log spine .finish log
        { spine with tail := { spine.tail with hash := draft.hash }, append := .idle }
  | found : spine.append = .conflict args attempt →
      refreshHead genesis log = .ok located →
      Step genesis log spine .find log
        { spine with append := .refreshing args attempt located }
  | unreadable : spine.append = .conflict args attempt →
      refreshHead genesis log = .error error →
        Step genesis log spine .find log
          { spine with tail := refreshFailed log spine.tail, append := .idle }
  | assign : spine.append = .refreshing args attempt located →
      Step genesis log spine .assign log
        { spine with tail := located, append := .ready args (attempt + 1) }
  | refreshCall : spine.refresh = .idle →
      Step genesis log spine .refreshCall log { spine with refresh := .reading }
  | refreshFound : spine.refresh = .reading →
      refreshHead genesis log = .ok located →
      Step genesis log spine .refreshRead log { spine with refresh := .read located }
  | refreshUnreadable : spine.refresh = .reading →
      refreshHead genesis log = .error error →
        Step genesis log spine .refreshRead log
          { spine with tail := refreshFailed log spine.tail, refresh := .idle }
  | refreshAssign : spine.refresh = .read located →
      Step genesis log spine .refreshAssign log
        { spine with tail := located, refresh := .idle }

theorem step_cases {genesis : String} {log next : EventLog} {spine after : EventSpine}
    {action : SpineAction}
    (stepped : step genesis (log, spine) action = some (next, after)) :
    Step genesis log spine action next after := by
  unfold step at stepped
  dsimp only at stepped
  split at stepped
  · rename_i idle
    cases stepped
    exact .call idle
  · rename_i ready
    split at stepped
    · cases stepped
      exact .take ready ‹_›
    · cases stepped
  · rename_i ready
    split at stepped
    · cases stepped
    · cases stepped
      exact .giveUp ready ‹_›
  · rename_i inserting
    split at stepped
    · cases stepped
      exact .inserted inserting ‹_›
    · cases stepped
      exact .duplicate inserting ‹_›
  · rename_i inserting
    cases stepped
    exact .lost inserting
  · rename_i inserting
    obtain ⟨next, stored, equal⟩ := Option.map_eq_some_iff.mp stepped
    cases equal
    exact .unconfirmed inserting stored
  · rename_i stored
    cases stepped
    exact .finish stored
  · rename_i conflict
    split at stepped
    · cases stepped
      exact .found conflict ‹_›
    · cases stepped
      exact .unreadable conflict ‹_›
  · rename_i refreshing
    cases stepped
    exact .assign refreshing
  · split at stepped
    · cases stepped
      exact .refreshCall ‹_›
    · cases stepped
  · split at stepped
    · split at stepped
      · cases stepped
        exact .refreshFound ‹_› ‹_›
      · cases stepped
        exact .refreshUnreadable ‹_› ‹_›
    · cases stepped
  · split at stepped
    · cases stepped
      exact .refreshAssign ‹_›
    · cases stepped
  · cases stepped

end EventSpine

/-! Verification and replay. -/

structure ChainReport where
  verified : Nat
  headHash : String
  intact : Bool
  brokenAtSeq : Option Int
  brokenEventId : Option Value

/-- `cursor.limit`, where zero is no limit. -/
def cursorLimit (limit : Option Nat) (docs : List Doc) : List Doc :=
  match limit with
  | none | some 0 => docs
  | some limit => docs.take limit

/-- The loop of `verify_chain`, with its variables `prev` and `verified`. -/
def verifyLoop (prev : String) (verified : Nat) : List Doc → Except PyError ChainReport
  | [] => .ok ⟨verified, prev, true, none, none⟩
  | doc :: rest =>
      let expected := computeHash prev (hashPayloadFromDoc doc)
      if !(doc.get "prev_hash").pyEq (.str prev) ||
          !(doc.get "hash").pyEq (.str expected) then do
        let seq ← subscript doc "seq"
        let brokenAt ← pyInt seq
        let brokenEventId ← subscript doc "event_id"
        .ok ⟨verified, prev, false, some brokenAt, some brokenEventId⟩
      else
        verifyLoop expected (verified + 1) rest

def verifyChain (genesis : String) (log : EventLog) (limit : Option Nat := none) :
    Except PyError ChainReport :=
  verifyLoop genesis 0 (cursorLimit limit (sortBySeq log))

def replaySince (log : EventLog) (seq : Option Int) (eventId : Option String)
    (limit : Nat := 1000) : Except PyError (List Doc) := do
  let startSeq ← match seq, eventId with
    | none, some eventId =>
        match log.find? (fun doc => (doc.get "event_id").pyEq (.str eventId)) with
        | some doc => do
            let value ← subscript doc "seq"
            let value ← pyInt value
            pure (some value)
        | none => pure none
    | seq, _ => pure seq
  let found := match startSeq with
    | some start => log.filter fun doc =>
        decide (bsonRank (doc.get "seq") = bsonRank (.int start)) &&
          !bsonLe (doc.get "seq") (.int start)
    | none => log
  pure (cursorLimit (some limit) (sortBySeq found))

/-- `{"seq": {"$gt": start}}` -/
def laterThan (start : Int) (doc : Doc) : Bool :=
  decide (bsonRank (doc.get "seq") = bsonRank (.int start)) &&
    !bsonLe (doc.get "seq") (.int start)

theorem replaySince_seq (log : EventLog) (start : Int) (limit : Nat) :
    replaySince log (some start) none limit =
      .ok (cursorLimit (some limit) (sortBySeq (log.filter (laterThan start)))) :=
  rfl

theorem cursorLimit_sublist (limit : Option Nat) (docs : List Doc) :
    (cursorLimit limit docs).Sublist docs := by
  unfold cursorLimit
  split
  · exact .refl _
  · exact .refl _
  · exact List.take_sublist _ _

theorem mem_replayed {log : EventLog} {start : Int} {limit : Nat}
    (enough : (log.filter (laterThan start)).length ≤ limit) {doc : Doc}
    (stored : doc ∈ log) (later : laterThan start doc = true) :
    doc ∈ cursorLimit (some limit) (sortBySeq (log.filter (laterThan start))) := by
  have found : doc ∈ sortBySeq (log.filter (laterThan start)) := by
    rw [sortBySeq, List.mem_insertionSort, List.mem_filter]
    exact ⟨stored, later⟩
  unfold cursorLimit
  split
  · exact found
  · exact found
  · rename_i equal
    cases equal
    rwa [List.take_of_length_le]
    rw [sortBySeq, List.length_insertionSort]
    exact enough

end OrderStream
