import OrderStream.Delivery.Pipeline
import OrderStream.Routes.Events

/-! The seq of the last event received as a cursor into the spine. -/

namespace OrderStream

open Transition

/-- The client received the event, or one that stands for it. -/
def Reader.Has (reader : Reader) (event : Event) : Prop :=
  ∃ emission ∈ reader.received, event ∈ emission.members

namespace Pipeline

/-- Stored but not delivered: buffered, suppressed by the kill-switch, or lost when its
append raised. -/
def Outstanding (pipeline : Pipeline) (event : Event) : Prop :=
  (∃ entry ∈ pipeline.buffer.held, event ∈ entry.members) ∨
    (∃ emission ∈ pipeline.suppressed, event ∈ emission.members) ∨
      event ∈ pipeline.unconfirmed

/-- No event is broadcast to the client while an older one, appended since the client
subscribed, is outstanding. -/
def BroadcastInTurn (windows : Windows) (pipeline : Pipeline) (action : PipelineAction) :
    Prop :=
  ∀ reader bufferAction remaining emission,
    pipeline.engaged = false → pipeline.reader = some reader → reader.connected = true →
      pipeline.BufferStep action bufferAction remaining →
        pipeline.buffer.Sends windows bufferAction emission →
          ∀ draft ∈ pipeline.appended.drop reader.since, draft.seq ≤ emission.event.seq →
            draft.event ∈ emission.members ∨ ¬pipeline.Outstanding draft.event

/-- Where the emitted events are, as the client sees it, and what they leave out. -/
structure Located (pipeline : Pipeline) (reader : Reader) : Prop where
  since : reader.since ≤ pipeline.appended.length
  placed : reader.connected = true → ∀ emission ∈ pipeline.buffer.emitted,
    emission ∈ pipeline.suppressed ∨ emission ∈ reader.delivered ∨
      ∀ draft ∈ pipeline.appended.drop reader.since, draft.event ∉ emission.members
  emitted : ∀ emission ∈ reader.delivered, emission ∈ pipeline.buffer.emitted
  covered : ∀ before emission after, reader.delivered = before ++ emission :: after →
    ∀ draft ∈ pipeline.appended.drop reader.since, draft.seq ≤ emission.event.seq →
      ∃ earlier ∈ before ++ [emission], draft.event ∈ earlier.members

section

variable {windows : Windows} {pipeline next : Pipeline} {actions : List BufferAction}
  {reader : Reader}

theorem Projected.member_added (projected : Projected windows pipeline actions)
    {event : Event} (member : event ∈ pipeline.buffer.members) :
    event ∈ addedEvents actions :=
  (CohesionBuffer.members_of_reached projected.reached).mem_iff.mp member

theorem Projected.emission_added (projected : Projected windows pipeline actions)
    {emission : Emission} (emitted : emission ∈ pipeline.buffer.emitted) {event : Event}
    (member : event ∈ emission.members) : event ∈ addedEvents actions :=
  projected.member_added
    (List.mem_append_right _ (List.mem_flatMap.mpr ⟨emission, emitted, member⟩))

theorem Projected.entry_added (projected : Projected windows pipeline actions)
    {entry : Pending} (held : entry ∈ pipeline.buffer.held) {event : Event}
    (member : event ∈ entry.members) : event ∈ addedEvents actions :=
  projected.member_added
    (List.mem_append_left _ (List.mem_flatMap.mpr ⟨entry, held, member⟩))

theorem Projected.emission_le (projected : Projected windows pipeline actions)
    {emission : Emission} (emitted : emission ∈ pipeline.buffer.emitted) :
    emission.event.seq ≤ pipeline.tail.seq := by
  obtain ⟨member, known, same⟩ :=
    (CohesionBuffer.seq_of_reached projected.reached).2 emission emitted
  rw [← same]
  exact projected.added_le (projected.emission_added emitted known)

theorem Located.snoc (located : pipeline.Located reader)
    (projected : Projected windows pipeline actions) {args : AppendArgs} {eventId : String}
    {ts : Temporal} (buffer : next.buffer = pipeline.buffer)
    (suppressed : next.suppressed = pipeline.suppressed)
    (appended : next.appended = pipeline.appended ++ [pipeline.draft args eventId ts]) :
    next.Located reader := by
  have dropped : next.appended.drop reader.since =
      pipeline.appended.drop reader.since ++ [pipeline.draft args eventId ts] := by
    rw [appended, List.drop_append_of_le_length located.since]
  constructor
  · rw [appended, List.length_append]
    exact Nat.le_add_right_of_le located.since
  · intro connected emission emitted
    rw [buffer] at emitted
    rw [suppressed, dropped]
    rcases located.placed connected emission emitted with hidden | queued | foreign
    · exact Or.inl hidden
    · exact Or.inr (Or.inl queued)
    · refine Or.inr (Or.inr ?_)
      intro draft member inside
      rcases List.mem_append.mp member with known | last
      · exact foreign draft known inside
      · rw [List.mem_singleton.mp last] at inside
        have bound := projected.added_le (projected.emission_added emitted inside)
        change pipeline.tail.seq + 1 ≤ pipeline.tail.seq at bound
        omega
  · intro emission queued
    rw [buffer]
    exact located.emitted emission queued
  · intro before emission after split draft member below
    rw [dropped] at member
    rcases List.mem_append.mp member with known | last
    · exact located.covered before emission after split draft known below
    · rw [List.mem_singleton.mp last] at below
      have bound := projected.emission_le
        (located.emitted emission (by rw [split]; simp))
      change pipeline.tail.seq + 1 ≤ emission.event.seq at below
      omega

/-- Every event that is not newer than what is broadcast now was delivered, or is. -/
theorem Located.covers (located : pipeline.Located reader)
    (projected : Projected windows pipeline actions) {action : PipelineAction}
    (inTurn : pipeline.BroadcastInTurn windows action)
    (engaged : pipeline.engaged = false) (present : pipeline.reader = some reader)
    (connected : reader.connected = true) {bufferAction : BufferAction}
    {remaining : Option Event} {emission : Emission}
    (does : pipeline.BufferStep action bufferAction remaining)
    (sends : pipeline.buffer.Sends windows bufferAction emission)
    {draft : Draft} (member : draft ∈ pipeline.appended.drop reader.since)
    (below : draft.seq ≤ emission.event.seq) :
    ∃ earlier ∈ reader.delivered ++ [emission], draft.event ∈ earlier.members := by
  have settled (outstanding : pipeline.Outstanding draft.event) :
      ∃ earlier ∈ reader.delivered ++ [emission], draft.event ∈ earlier.members := by
    rcases inTurn reader bufferAction remaining emission engaged present connected does sends
      draft member below with own | free
    · exact ⟨emission, List.mem_append_right _ List.mem_cons_self, own⟩
    · exact absurd outstanding free
  rcases projected.complete draft (List.mem_of_mem_drop member) with added | handed | lost
  · have kept := (CohesionBuffer.members_of_reached projected.reached).mem_iff.mpr added
    rcases List.mem_append.mp kept with held | gone
    · exact settled (Or.inl (List.mem_flatMap.mp held))
    · obtain ⟨earlier, emitted, inside⟩ := List.mem_flatMap.mp gone
      rcases located.placed connected earlier emitted with hidden | queued | foreign
      · exact settled (Or.inr (Or.inl ⟨earlier, hidden, inside⟩))
      · exact ⟨earlier, List.mem_append_left _ queued, inside⟩
      · exact absurd inside (foreign draft member)
  · rcases CohesionBuffer.sends_cases sends with ⟨event, rfl, rfl⟩ | ⟨quiet, entry, held, rfl⟩
    · -- the event handed to the buffer is the one it sends on
      cases action with
      | add =>
          obtain ⟨_, other, stays, equal⟩ := does
          cases equal
          cases stays.symm.trans handed
          exact ⟨_, List.mem_append_right _ List.mem_cons_self, List.mem_cons_self⟩
      | expire _ | flushAll | drain _ => cases does.2
      | _ => exact does.elim
    · -- an event still handed over is newer than every entry
      obtain ⟨last, inside, same⟩ :=
        (CohesionBuffer.seq_of_reached projected.reached).1 entry held
      have newer := (projected.handed _ handed).2 last (projected.entry_added held inside)
      rw [same] at newer
      exact absurd (Int.lt_of_lt_of_le newer below) (Int.lt_irrefl _)
  · exact settled (Or.inr (Or.inr lost))

theorem reader_of_broadcast {emissions : List Emission}
    (found : (pipeline.broadcast emissions).reader = some reader) :
    ∃ earlier, pipeline.reader = some earlier := by
  unfold broadcast at found
  split at found
  · exact ⟨reader, found⟩
  · obtain ⟨earlier, present, _⟩ := Option.map_eq_some_iff.mp found
    exact ⟨earlier, present⟩

theorem delivered_put (connected : reader.connected = true) (emissions : List Emission) :
    (reader.put emissions).delivered = reader.delivered ++ emissions := by
  rw [Reader.put, if_pos connected, Reader.delivered, Reader.delivered, List.append_assoc]

theorem Located.keep (located : pipeline.Located reader)
    (appended : next.appended = pipeline.appended)
    (grows : ∀ emission ∈ pipeline.buffer.emitted, emission ∈ next.buffer.emitted)
    (hidden : ∀ emission ∈ pipeline.suppressed, emission ∈ next.suppressed)
    (emitted : ∀ emission ∈ next.buffer.emitted, emission ∈ pipeline.buffer.emitted ∨
      (reader.connected = true → emission ∈ next.suppressed)) : next.Located reader := by
  constructor
  · rw [appended]
    exact located.since
  · intro connected emission member
    rw [appended]
    rcases emitted emission member with before | now
    · rcases located.placed connected emission before with old | rest
      · exact Or.inl (hidden emission old)
      · exact Or.inr rest
    · exact Or.inl (now connected)
  · intro emission member
    exact grows emission (located.emitted emission member)
  · rw [appended]
    exact located.covered

theorem Located.deliver (located : pipeline.Located reader)
    (connected : reader.connected = true) {emission : Emission}
    (appended : next.appended = pipeline.appended)
    (emitted : next.buffer.emitted = pipeline.buffer.emitted ++ [emission])
    (suppressed : next.suppressed = pipeline.suppressed)
    (covers : ∀ draft ∈ pipeline.appended.drop reader.since,
      draft.seq ≤ emission.event.seq →
        ∃ earlier ∈ reader.delivered ++ [emission], draft.event ∈ earlier.members) :
    next.Located (reader.put [emission]) := by
  have delivered := delivered_put connected [emission]
  have since : (reader.put [emission]).since = reader.since := by
    rw [Reader.put, if_pos connected]
  constructor
  · rw [appended, since]
    exact located.since
  · intro _ other member
    rw [emitted] at member
    rw [suppressed, delivered, appended, since]
    rcases List.mem_append.mp member with before | now
    · rcases located.placed connected other before with hidden | queued | foreign
      · exact Or.inl hidden
      · exact Or.inr (Or.inl (List.mem_append_left _ queued))
      · exact Or.inr (Or.inr foreign)
    · exact Or.inr (Or.inl (List.mem_append_right _ now))
  · intro other member
    rw [delivered] at member
    rw [emitted]
    rcases List.mem_append.mp member with queued | now
    · exact List.mem_append_left _ (located.emitted other queued)
    · exact List.mem_append_right _ now
  · intro before other after split
    rw [appended, since]
    rw [delivered] at split
    rcases List.eq_nil_or_concat after with rfl | ⟨rest, last, rfl⟩
    · obtain ⟨same, ends⟩ := List.append_inj' split rfl
      cases ends
      rw [← same]
      exact covers
    · rw [List.concat_eq_append, ← List.cons_append, ← List.append_assoc] at split
      obtain ⟨same, -⟩ := List.append_inj' split rfl
      exact located.covered before other rest same

theorem Located.advance (located : pipeline.Located reader)
    (projected : Projected windows pipeline actions) {action : PipelineAction}
    (inTurn : pipeline.BroadcastInTurn windows action)
    (present : pipeline.reader = some reader) {bufferAction : BufferAction}
    {remaining : Option Event} {buffer : CohesionBuffer}
    (does : pipeline.BufferStep action bufferAction remaining)
    (stepped : CohesionBuffer.step windows pipeline.buffer bufferAction = some buffer)
    {after : Reader}
    (found : ({ pipeline with handed := remaining, buffer }.broadcast
      (buffer.emitted.drop pipeline.buffer.emitted.length)).reader = some after) :
    ({ pipeline with handed := remaining, buffer }.broadcast
      (buffer.emitted.drop pipeline.buffer.emitted.length)).Located after := by
  rcases CohesionBuffer.emitted_step stepped with quiet | ⟨emission, sends, emitted⟩
  · rw [quiet, List.drop_length, broadcast_nil] at found ⊢
    cases present.symm.trans found
    refine located.keep rfl ?_ (fun _ member => member) ?_
    · intro other member
      rw [quiet]
      exact member
    · intro other member
      rw [quiet] at member
      exact Or.inl member
  · rw [emitted, List.drop_left] at found ⊢
    unfold broadcast at found ⊢
    split at found
    · rename_i engaged
      rw [if_pos engaged]
      cases present.symm.trans found
      refine located.keep rfl ?_ ?_ ?_
      · intro other member
        rw [emitted]
        exact List.mem_append_left _ member
      · intro other member
        exact List.mem_append_left _ member
      · intro other member
        change other ∈ buffer.emitted at member
        rw [emitted] at member
        rcases List.mem_append.mp member with before | now
        · exact Or.inl before
        · exact Or.inr fun _ => List.mem_append_right _ now
    · rename_i running
      rw [if_neg running]
      rw [present] at found
      cases found
      by_cases connected : reader.connected = true
      · refine located.deliver connected rfl emitted rfl ?_
        intro draft member below
        exact located.covers projected inTurn (Bool.eq_false_of_not_eq_true running) present
          connected does sends member below
      · have unmoved : reader.put [emission] = reader := by rw [Reader.put, if_neg connected]
        change Located _ (reader.put [emission])
        rw [unmoved]
        refine located.keep rfl ?_ (fun _ member => member) ?_
        · intro other member
          rw [emitted]
          exact List.mem_append_left _ member
        · intro other member
          exact Or.inr fun yes => absurd yes connected

theorem Located.receive (located : pipeline.Located reader) {emission : Emission}
    {rest : List Emission} (queue : reader.queue = emission :: rest)
    {after : Reader} (moved : after =
      { reader with queue := rest, received := reader.received ++ [emission] }) :
    { pipeline with reader := some after }.Located after := by
  have same : after.delivered = reader.delivered := by
    rw [moved, Reader.delivered, Reader.delivered, queue, List.append_assoc,
      List.singleton_append]
  subst moved
  refine ⟨located.since, ?_, ?_, ?_⟩
  · intro connected other member
    rw [same]
    exact located.placed connected other member
  · rw [same]
    exact located.emitted
  · rw [same]
    exact located.covered

theorem Located.disconnect (located : pipeline.Located reader) {after : Reader}
    (moved : after = { reader with connected := false, queue := [] }) :
    { pipeline with reader := some after }.Located after := by
  have left : reader.delivered = after.delivered ++ reader.queue := by
    rw [moved, Reader.delivered, Reader.delivered, List.append_nil]
  have since : after.since = reader.since := by rw [moved]
  constructor
  · rw [since]
    exact located.since
  · intro connected
    rw [moved] at connected
    cases connected
  · intro other member
    exact located.emitted other (left ▸ List.mem_append_left _ member)
  · intro before other later split
    rw [since]
    refine located.covered before other (later ++ reader.queue) ?_
    rw [left, split, List.append_assoc, List.cons_append]

theorem located_step {action : PipelineAction}
    (projected : Projected windows pipeline actions)
    (located : ∀ reader, pipeline.reader = some reader → pipeline.Located reader)
    (inTurn : pipeline.BroadcastInTurn windows action)
    (stepped : Pipeline.step windows pipeline action = some next) :
    ∀ reader, next.reader = some reader → next.Located reader := by
  intro reader found
  cases step_cases stepped with
  | appended _ _ => exact (located reader found).snoc projected rfl rfl rfl
  | failed _ =>
      exact (located reader found).keep rfl (fun _ member => member) (fun _ member => member)
        fun _ member => Or.inl member
  | unconfirmed _ _ => exact (located reader found).snoc projected rfl rfl rfl
  | advanced does moved =>
      obtain ⟨earlier, present⟩ := reader_of_broadcast found
      exact (located earlier present).advance projected inTurn present does moved found
  | engaged =>
      exact (located reader found).keep rfl (fun _ member => member) (fun _ member => member)
        fun _ member => Or.inl member
  | released =>
      exact (located reader found).keep rfl (fun _ member => member) (fun _ member => member)
        fun _ member => Or.inl member
  | subscribed _ =>
      cases found
      refine ⟨Nat.le_refl _, ?_, ?_, ?_⟩
      · intro _ emission _
        refine Or.inr (Or.inr ?_)
        simp
      · intro emission queued
        cases queued
      · intro before emission after split
        simp [Reader.delivered] at split
  | received present queue =>
      cases found
      exact (located _ present).receive queue rfl
  | disconnected present =>
      cases found
      exact (located _ present).disconnect rfl

theorem located_of_reached {log : EventLog} {tail : Tail}
    {taken : List PipelineAction}
    (inTurn : Along (step windows) (fun _ => BroadcastInTurn windows) { log, tail } taken)
    (reached : exec (step windows) { log, tail } taken = some pipeline) :
    ∃ actions, Projected windows pipeline actions ∧
      ∀ reader, pipeline.reader = some reader → pipeline.Located reader := by
  refine exec_induction_along (motive := fun _ pipeline => ∃ actions,
    Projected windows pipeline actions ∧
      ∀ reader, pipeline.reader = some reader → pipeline.Located reader) ?_ ?_ inTurn reached
  · refine ⟨[], projected_init log tail, ?_⟩
    intro reader found
    cases found
  · rintro _ middle action finish _ ⟨actions, projected, located⟩ met stepped
    obtain ⟨later, onward⟩ := projected.step stepped
    exact ⟨_, onward, located_step projected located met stepped⟩

end

/-- What a client whose last received event is `last` may rely on, if it asks
`GET /events` for what comes after. -/
structure CursorSafe (pipeline : Pipeline) (reader : Reader) (last : Emission)
    (limit : Int) : Prop where
  covered : ∀ draft ∈ pipeline.appended.drop reader.since, draft.seq ≤ last.event.seq →
    reader.Has draft.event
  replayed : ∃ count events,
    replayEvents pipeline.log (some last.event.seq) none limit = .ok count events ∧
      ∀ draft ∈ pipeline.appended.drop reader.since, ¬reader.Has draft.event →
        servedDoc draft.storageDoc ∈ events

/-- When no event is broadcast before an older one that is outstanding, the seq of the
last event received is a safe cursor, if the page is answered and holds what comes after
it. -/
theorem replay_cursor_safe {windows : Windows} {log : EventLog} {tail : Tail}
    {actions : List PipelineAction} {pipeline : Pipeline}
    (inTurn : Along (step windows) (fun _ => BroadcastInTurn windows) { log, tail } actions)
    (reached : exec (step windows) { log, tail } actions = some pipeline)
    {reader : Reader} (present : pipeline.reader = some reader) {last : Emission}
    (received : reader.received.getLast? = some last)
    (int64 : isInt64 last.event.seq = true)
    (finite : ∀ doc ∈ pipeline.log, laterThan last.event.seq doc = true → doc.isFinite = true)
    {limit : Int} (positive : 1 ≤ limit) (atMost : limit ≤ 5000)
    (enough : (pipeline.log.filter (laterThan last.event.seq)).length ≤ limit) :
    pipeline.CursorSafe reader last limit := by
  obtain ⟨buffered, projected, located⟩ := located_of_reached inTurn reached
  obtain ⟨before, split⟩ := List.getLast?_eq_some_iff.mp received
  have covered : ∀ draft ∈ pipeline.appended.drop reader.since,
      draft.seq ≤ last.event.seq → reader.Has draft.event := by
    intro draft member below
    rw [Reader.Has, split]
    refine (located reader present).covered before last reader.queue ?_ draft member below
    rw [Reader.delivered, split, List.append_assoc, List.singleton_append]
  refine ⟨covered, _, _, replayEvents_later int64 finite positive atMost, ?_⟩
  intro draft member missing
  apply List.mem_map_of_mem
  refine mem_replayed (by omega) (projected.stored draft (List.mem_of_mem_drop member)) ?_
  rw [laterThan_storageDoc]
  have newer := Int.not_le.mp fun below => missing (covered draft member below)
  exact decide_eq_true newer

theorem broadcastInTurn_of_quiet {windows : Windows} {pipeline : Pipeline}
    {action : PipelineAction}
    (quiet : ∀ bufferAction remaining, ¬pipeline.BufferStep action bufferAction remaining) :
    pipeline.BroadcastInTurn windows action :=
  fun _ bufferAction remaining _ _ _ _ does => absurd does (quiet bufferAction remaining)

def insertThenDisconnect : List PipelineAction :=
  [.subscribe, .append sampleArgs "first" sampleTime, .add, .receive, .disconnect,
    .append sampleArgs "second" sampleTime]

theorem inTurn_insertThenDisconnect :
    Along (step CohesionBuffer.sampleWindows)
      (fun _ => BroadcastInTurn CohesionBuffer.sampleWindows)
      { log := [], tail := ⟨0, auditGenesisHash⟩ } insertThenDisconnect := by
  refine along_cons.mpr ⟨broadcastInTurn_of_quiet (fun _ _ => id), ?_⟩
  intro subscribed first
  cases first
  refine along_cons.mpr ⟨broadcastInTurn_of_quiet (fun _ _ => id), ?_⟩
  intro appended second
  cases step_cases second with
  | advanced does _ => exact does.elim
  | appended _ _ =>
      refine along_cons.mpr ⟨?_, ?_⟩
      · rintro reader bufferAction remaining emission _ _ _ ⟨_, event, handed, rfl⟩ ⟨_, rfl⟩
          draft member _
        cases handed
        rw [List.mem_singleton.mp (List.mem_of_mem_drop member)]
        exact Or.inl List.mem_cons_self
      · intro added _
        refine along_cons.mpr ⟨broadcastInTurn_of_quiet (fun _ _ => id), ?_⟩
        intro received _
        refine along_cons.mpr ⟨broadcastInTurn_of_quiet (fun _ _ => id), ?_⟩
        intro disconnected _
        exact along_cons.mpr ⟨broadcastInTurn_of_quiet (fun _ _ => id), fun _ _ => along_nil⟩

theorem replay_cursor_safe_after_insert :
    ∃ pipeline reader last,
      exec (step CohesionBuffer.sampleWindows) { log := [], tail := ⟨0, auditGenesisHash⟩ }
          insertThenDisconnect = some pipeline ∧
        pipeline.reader = some reader ∧ reader.received.getLast? = some last ∧
        (pipeline.log.filter (laterThan last.event.seq)).length = 1 ∧
        pipeline.CursorSafe reader last 500 := by
  have ran : (exec (step CohesionBuffer.sampleWindows)
      { log := [], tail := ⟨0, auditGenesisHash⟩ } insertThenDisconnect).map
        (fun pipeline => (pipeline.log.all Doc.isFinite,
          (pipeline.log.filter (laterThan 1)).length,
          pipeline.reader.map fun reader =>
            reader.received.map fun emission => emission.event.seq)) =
      some (true, 1, some [1]) := by
    decide +kernel
  obtain ⟨pipeline, reached, view⟩ := Option.map_eq_some_iff.mp ran
  simp only [Prod.mk.injEq] at view
  obtain ⟨finite, later, opened⟩ := view
  obtain ⟨reader, present, sees⟩ := Option.map_eq_some_iff.mp opened
  obtain ⟨last, single, cursor⟩ := List.map_eq_singleton_iff.mp sees
  have received : reader.received.getLast? = some last := by
    rw [single]
    rfl
  rw [← cursor] at later
  refine ⟨pipeline, reader, last, reached, present, received, later,
    replay_cursor_safe inTurn_insertThenDisconnect reached present received ?_ ?_ (by decide)
      (by decide) (by omega)⟩
  · rw [cursor]
    decide
  · intro doc member _
    exact List.all_eq_true.mp finite doc member

/-! An update of one order waits in the buffer while the insert of another order, later
in the spine, goes out at once. -/

def statusArgs : AppendArgs where
  op := .update
  intent := .statusChange
  priority := .normal
  orderId := "1"
  diff := CohesionBuffer.validated.diff
  before := CohesionBuffer.validated.before
  after := CohesionBuffer.validated.after
  resumeToken := none
  clusterTime := none

def insertArgs : AppendArgs where
  op := .insert
  intent := .newOrder
  priority := .urgent
  orderId := "2"
  diff := computeDiff none (some (sampleOrder "pending" 10))
  before := none
  after := some (sampleOrder "pending" 10)
  resumeToken := none
  clusterTime := none

def overtakingRun : List PipelineAction :=
  [.subscribe, .append statusArgs "first" sampleTime, .add,
    .append insertArgs "second" sampleTime, .add, .receive]

theorem buffered_update_is_missed :
    ∃ pipeline reader last,
      exec (step CohesionBuffer.sampleWindows) { log := [], tail := ⟨0, auditGenesisHash⟩ }
          overtakingRun = some pipeline ∧
        pipeline.reader = some reader ∧ reader.received.getLast? = some last ∧
        pipeline.log.length ≤ 500 ∧ ¬pipeline.CursorSafe reader last 500 := by
  have stored : (exec (step CohesionBuffer.sampleWindows)
      { log := [], tail := ⟨0, auditGenesisHash⟩ } overtakingRun).map
        (fun pipeline => (pipeline.appended.map (·.seq), pipeline.log.length,
          pipeline.reader.map (·.since))) = some ([1, 2], 2, some 0) := by
    decide +kernel
  have received : (exec (step CohesionBuffer.sampleWindows)
      { log := [], tail := ⟨0, auditGenesisHash⟩ } overtakingRun).map
        (fun pipeline => pipeline.reader.map fun reader =>
          reader.received.map fun emission =>
            (emission.event.seq, emission.members.map (·.seq))) =
      some (some [(2, [2])]) := by
    decide +kernel
  obtain ⟨pipeline, reached, view⟩ := Option.map_eq_some_iff.mp stored
  simp only [Prod.mk.injEq] at view
  obtain ⟨seqs, stores, opened⟩ := view
  rw [reached, Option.map_some, Option.some.injEq] at received
  obtain ⟨reader, present, sees⟩ := Option.map_eq_some_iff.mp received
  obtain ⟨last, single, only⟩ := List.map_eq_singleton_iff.mp sees
  obtain ⟨seq, members⟩ := Prod.mk.inj only
  refine ⟨pipeline, reader, last, reached, present, by rw [single]; rfl, by omega, ?_⟩
  intro safe
  have first : (1 : Int) ∈ pipeline.appended.map (·.seq) := by
    rw [seqs]
    exact List.mem_cons_self
  obtain ⟨draft, known, named⟩ := List.mem_map.mp first
  rw [present, Option.map_some, Option.some.injEq] at opened
  obtain ⟨emission, known, inside⟩ := safe.covered draft (by rwa [opened]) (by omega)
  rw [single, List.mem_singleton] at known
  subst known
  have carried : draft.seq ∈ emission.members.map (·.seq) :=
    List.mem_map.mpr ⟨draft.event, inside, rfl⟩
  rw [members, named] at carried
  exact absurd carried (by decide)

end Pipeline

end OrderStream
