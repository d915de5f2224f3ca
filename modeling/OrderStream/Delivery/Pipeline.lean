import OrderStream.Buffer.Cohesion
import OrderStream.Spine.Chain

/-! The way of an event from the spine through the buffer to a client. -/

namespace OrderStream

open Transition

/-- A client without filters whose queue never fills.  `since` is how many events had
been appended when it subscribed. -/
structure Reader where
  since : Nat
  connected : Bool := true
  queue : List Emission := []
  received : List Emission := []

/-- `handed` is the event that `append` returned to the watcher and that `add` did not
get yet; `unconfirmed` are stored events whose `append` raised. -/
structure Pipeline where
  log : EventLog
  tail : Tail
  appended : List Draft := []
  handed : Option Event := none
  unconfirmed : List Event := []
  buffer : CohesionBuffer := {}
  engaged : Bool := false
  suppressed : List Emission := []
  reader : Option Reader := none

inductive PipelineAction where
  | append (args : AppendArgs) (eventId : String) (ts : Temporal)
  | fail (args : AppendArgs) (eventId : String) (ts : Temporal) (stored : Bool)
  | add
  | expire (timer : Nat)
  | flushAll
  | drain (flush : Nat)
  | engage
  | release
  | subscribe
  | receive
  | disconnect

namespace Reader

def put (reader : Reader) (emissions : List Emission) : Reader :=
  if reader.connected then { reader with queue := reader.queue ++ emissions } else reader

def delivered (reader : Reader) : List Emission := reader.received ++ reader.queue

end Reader

namespace Pipeline

def draft (pipeline : Pipeline) (args : AppendArgs) (eventId : String) (ts : Temporal) :
    Draft where
  args := args
  eventId := eventId
  ts := ts
  seq := pipeline.tail.seq + 1
  prevHash := pipeline.tail.hash

def broadcast (pipeline : Pipeline) (emissions : List Emission) : Pipeline :=
  if pipeline.engaged then
    { pipeline with suppressed := pipeline.suppressed ++ emissions }
  else
    { pipeline with reader := pipeline.reader.map fun reader => reader.put emissions }

def advance (windows : Windows) (pipeline : Pipeline) (action : BufferAction) :
    Option Pipeline :=
  (CohesionBuffer.step windows pipeline.buffer action).map fun buffer =>
    { pipeline with buffer }.broadcast
      (buffer.emitted.drop pipeline.buffer.emitted.length)

def step (windows : Windows) (pipeline : Pipeline) : PipelineAction → Option Pipeline
  | .append args eventId ts =>
      let draft := pipeline.draft args eventId ts
      match pipeline.handed, insertOne pipeline.log draft.storageDoc with
      | none, some log =>
          some { pipeline with
            log
            tail := ⟨draft.seq, draft.hash⟩
            appended := pipeline.appended ++ [draft]
            handed := some draft.event }
      | _, _ => none
  | .fail args eventId ts false =>
      let draft := pipeline.draft args eventId ts
      match pipeline.handed with
      | none => some { pipeline with tail := { pipeline.tail with seq := draft.seq } }
      | some _ => none
  | .fail args eventId ts true =>
      let draft := pipeline.draft args eventId ts
      match pipeline.handed, insertOne pipeline.log draft.storageDoc with
      | none, some log =>
          some { pipeline with
            log
            tail := { pipeline.tail with seq := draft.seq }
            appended := pipeline.appended ++ [draft]
            unconfirmed := pipeline.unconfirmed ++ [draft.event] }
      | _, _ => none
  | .add =>
      match pipeline.handed with
      | some event => { pipeline with handed := none }.advance windows (.add event)
      | none => none
  | .expire timer => pipeline.advance windows (.expire timer)
  | .flushAll => pipeline.advance windows .flushAll
  | .drain flush => pipeline.advance windows (.drain flush)
  | .engage => some { pipeline with engaged := true }
  | .release => some { pipeline with engaged := false }
  | .subscribe =>
      match pipeline.reader with
      | none => some { pipeline with reader := some { since := pipeline.appended.length } }
      | some _ => none
  | .receive =>
      match pipeline.reader with
      | some reader =>
          match reader.queue with
          | emission :: rest =>
              some { pipeline with reader := some { reader with
                queue := rest
                received := reader.received ++ [emission] } }
          | [] => none
      | none => none
  | .disconnect =>
      pipeline.reader.map fun reader =>
        { pipeline with reader := some { reader with connected := false, queue := [] } }

theorem broadcast_nil (pipeline : Pipeline) : pipeline.broadcast [] = pipeline := by
  have unmoved (reader : Reader) : reader.put [] = reader := by
    unfold Reader.put
    split
    · rw [List.append_nil]
    · rfl
  unfold broadcast
  split
  · rw [List.append_nil]
  · simp [unmoved]

section

variable (pipeline : Pipeline) (emissions : List Emission)

@[simp] theorem broadcast_appended :
    (pipeline.broadcast emissions).appended = pipeline.appended := by
  unfold broadcast
  split <;> rfl

@[simp] theorem broadcast_log : (pipeline.broadcast emissions).log = pipeline.log := by
  unfold broadcast
  split <;> rfl

@[simp] theorem broadcast_tail : (pipeline.broadcast emissions).tail = pipeline.tail := by
  unfold broadcast
  split <;> rfl

@[simp] theorem broadcast_handed :
    (pipeline.broadcast emissions).handed = pipeline.handed := by
  unfold broadcast
  split <;> rfl

@[simp] theorem broadcast_unconfirmed :
    (pipeline.broadcast emissions).unconfirmed = pipeline.unconfirmed := by
  unfold broadcast
  split <;> rfl

@[simp] theorem broadcast_buffer :
    (pipeline.broadcast emissions).buffer = pipeline.buffer := by
  unfold broadcast
  split <;> rfl

end

def BufferStep (pipeline : Pipeline) :
    PipelineAction → BufferAction → Option Event → Prop
  | .add, action, remaining =>
      remaining = none ∧ ∃ event, pipeline.handed = some event ∧ action = .add event
  | .expire timer, action, remaining =>
      remaining = pipeline.handed ∧ action = .expire timer
  | .flushAll, action, remaining => remaining = pipeline.handed ∧ action = .flushAll
  | .drain flush, action, remaining => remaining = pipeline.handed ∧ action = .drain flush
  | _, _, _ => False

inductive Step (windows : Windows) (pipeline : Pipeline) :
    PipelineAction → Pipeline → Prop where
  | appended {args : AppendArgs} {eventId : String} {ts : Temporal} {log : EventLog} :
      pipeline.handed = none →
        insertOne pipeline.log (pipeline.draft args eventId ts).storageDoc = some log →
          Step windows pipeline (.append args eventId ts)
            { pipeline with
              log
              tail := ⟨pipeline.tail.seq + 1, (pipeline.draft args eventId ts).hash⟩
              appended := pipeline.appended ++ [pipeline.draft args eventId ts]
              handed := some (pipeline.draft args eventId ts).event }
  | failed {args : AppendArgs} {eventId : String} {ts : Temporal} :
      pipeline.handed = none →
        Step windows pipeline (.fail args eventId ts false)
          { pipeline with tail := ⟨pipeline.tail.seq + 1, pipeline.tail.hash⟩ }
  | unconfirmed {args : AppendArgs} {eventId : String} {ts : Temporal} {log : EventLog} :
      pipeline.handed = none →
        insertOne pipeline.log (pipeline.draft args eventId ts).storageDoc = some log →
          Step windows pipeline (.fail args eventId ts true)
            { pipeline with
              log
              tail := ⟨pipeline.tail.seq + 1, pipeline.tail.hash⟩
              appended := pipeline.appended ++ [pipeline.draft args eventId ts]
              unconfirmed := pipeline.unconfirmed ++
                [(pipeline.draft args eventId ts).event] }
  | advanced {action : PipelineAction} {bufferAction : BufferAction}
      {remaining : Option Event} {buffer : CohesionBuffer} :
      pipeline.BufferStep action bufferAction remaining →
        CohesionBuffer.step windows pipeline.buffer bufferAction = some buffer →
          Step windows pipeline action
            ({ pipeline with handed := remaining, buffer }.broadcast
              (buffer.emitted.drop pipeline.buffer.emitted.length))
  | engaged : Step windows pipeline .engage { pipeline with engaged := true }
  | released : Step windows pipeline .release { pipeline with engaged := false }
  | subscribed : pipeline.reader = none →
      Step windows pipeline .subscribe
        { pipeline with reader := some { since := pipeline.appended.length } }
  | received {reader : Reader} {emission : Emission} {rest : List Emission} :
      pipeline.reader = some reader → reader.queue = emission :: rest →
        Step windows pipeline .receive
          { pipeline with reader := some { reader with
            queue := rest
            received := reader.received ++ [emission] } }
  | disconnected {reader : Reader} : pipeline.reader = some reader →
      Step windows pipeline .disconnect
        { pipeline with reader := some { reader with connected := false, queue := [] } }

theorem advance_eq_some {windows : Windows} {pipeline next : Pipeline}
    {action : BufferAction} (advanced : pipeline.advance windows action = some next) :
    ∃ buffer, CohesionBuffer.step windows pipeline.buffer action = some buffer ∧
      next = { pipeline with buffer }.broadcast
        (buffer.emitted.drop pipeline.buffer.emitted.length) := by
  obtain ⟨buffer, stepped, equal⟩ := Option.map_eq_some_iff.mp advanced
  exact ⟨buffer, stepped, equal.symm⟩

theorem step_cases {windows : Windows} {pipeline next : Pipeline} {action : PipelineAction}
    (stepped : step windows pipeline action = some next) :
    Step windows pipeline action next := by
  cases action with
  | append args eventId ts =>
      simp only [step] at stepped
      split at stepped
      · rename_i idle inserted
        cases stepped
        exact .appended idle inserted
      · cases stepped
  | fail args eventId ts stored =>
      cases stored with
      | false =>
          simp only [step] at stepped
          split at stepped
          · rename_i idle
            cases stepped
            exact .failed idle
          · cases stepped
      | true =>
          simp only [step] at stepped
          split at stepped
          · rename_i idle inserted
            cases stepped
            exact .unconfirmed idle inserted
          · cases stepped
  | add =>
      simp only [step] at stepped
      split at stepped
      · rename_i event handed
        obtain ⟨buffer, moved, rfl⟩ := advance_eq_some stepped
        exact .advanced ⟨rfl, event, handed, rfl⟩ moved
      · cases stepped
  | expire timer =>
      obtain ⟨buffer, moved, rfl⟩ := advance_eq_some stepped
      exact .advanced ⟨rfl, rfl⟩ moved
  | flushAll =>
      obtain ⟨buffer, moved, rfl⟩ := advance_eq_some stepped
      exact .advanced ⟨rfl, rfl⟩ moved
  | drain flush =>
      obtain ⟨buffer, moved, rfl⟩ := advance_eq_some stepped
      exact .advanced ⟨rfl, rfl⟩ moved
  | engage =>
      cases stepped
      exact .engaged
  | release =>
      cases stepped
      exact .released
  | subscribe =>
      simp only [step] at stepped
      split at stepped
      · cases stepped
        exact .subscribed ‹_›
      · cases stepped
  | receive =>
      simp only [step] at stepped
      split at stepped
      · split at stepped
        · cases stepped
          exact .received ‹_› ‹_›
        · cases stepped
      · cases stepped
  | disconnect =>
      obtain ⟨reader, found, rfl⟩ := Option.map_eq_some_iff.mp stepped
      exact .disconnected found

/-- The watcher still has it, its append raised, or the buffer got it. -/
structure Projected (windows : Windows) (pipeline : Pipeline)
    (actions : List BufferAction) : Prop where
  reached : exec (CohesionBuffer.step windows) {} actions = some pipeline.buffer
  stored : ∀ draft ∈ pipeline.appended, draft.storageDoc ∈ pipeline.log
  complete : ∀ draft ∈ pipeline.appended,
    draft.event ∈ addedEvents actions ∨ pipeline.handed = some draft.event ∨
      draft.event ∈ pipeline.unconfirmed
  sound : ∀ event ∈ addedEvents actions, ∃ draft ∈ pipeline.appended, draft.event = event
  ordered : pipeline.appended.Pairwise fun earlier later => earlier.seq < later.seq
  bounded : ∀ draft ∈ pipeline.appended, draft.seq ≤ pipeline.tail.seq
  handed : ∀ event, pipeline.handed = some event →
    (∃ draft ∈ pipeline.appended, draft.event = event) ∧
      ∀ earlier ∈ addedEvents actions, earlier.seq < event.seq

section

variable {windows : Windows} {pipeline next : Pipeline} {actions : List BufferAction}

theorem projected_init (log : EventLog) (tail : Tail) :
    Projected windows { log, tail } [] where
  reached := rfl
  stored := by simp
  complete := by simp
  sound := by simp [addedEvents]
  ordered := List.Pairwise.nil
  bounded := by simp
  handed := by simp

theorem Projected.added_le (projected : Projected windows pipeline actions) {event : Event}
    (added : event ∈ addedEvents actions) : event.seq ≤ pipeline.tail.seq := by
  obtain ⟨draft, known, rfl⟩ := projected.sound event added
  exact projected.bounded draft known

theorem Projected.snoc (projected : Projected windows pipeline actions)
    {args : AppendArgs} {eventId : String} {ts : Temporal} {log : EventLog}
    (inserted : insertOne pipeline.log (pipeline.draft args eventId ts).storageDoc = some log) :
    (∀ draft ∈ pipeline.appended ++ [pipeline.draft args eventId ts],
        draft.storageDoc ∈ log) ∧
      ((pipeline.appended ++ [pipeline.draft args eventId ts]).Pairwise
        fun earlier later => earlier.seq < later.seq) ∧
      (∀ draft ∈ pipeline.appended ++ [pipeline.draft args eventId ts],
        draft.seq ≤ pipeline.tail.seq + 1) ∧
      ∀ event ∈ addedEvents actions,
        ∃ draft ∈ pipeline.appended ++ [pipeline.draft args eventId ts],
          draft.event = event := by
  refine ⟨?_, ?_, ?_, ?_⟩
  · intro draft member
    rw [(insertOne_eq_some inserted).1]
    rcases List.mem_append.mp member with known | last
    · exact List.mem_append_left _ (projected.stored draft known)
    · rw [List.mem_singleton.mp last]
      exact List.mem_append_right _ List.mem_cons_self
  · rw [List.pairwise_append]
    refine ⟨projected.ordered, List.pairwise_singleton _ _, ?_⟩
    intro earlier known last isLast
    rw [List.mem_singleton.mp isLast]
    exact Int.lt_add_one_of_le (projected.bounded earlier known)
  · intro draft member
    rcases List.mem_append.mp member with known | last
    · have bound := projected.bounded draft known
      omega
    · rw [List.mem_singleton.mp last]
      exact Int.le_refl _
  · intro event added
    obtain ⟨draft, known, same⟩ := projected.sound event added
    exact ⟨draft, List.mem_append_left _ known, same⟩

theorem Projected.advance (projected : Projected windows pipeline actions)
    {action : PipelineAction} {bufferAction : BufferAction} {remaining : Option Event}
    {buffer : CohesionBuffer} (does : pipeline.BufferStep action bufferAction remaining)
    (stepped : CohesionBuffer.step windows pipeline.buffer bufferAction = some buffer)
    (emissions : List Emission) :
    Projected windows ({ pipeline with handed := remaining, buffer }.broadcast emissions)
      (actions ++ [bufferAction]) := by
  have reached := exec_snoc.mpr ⟨_, projected.reached, stepped⟩
  have quiet (same : remaining = pipeline.handed) (none : bufferAction.added? = none) :
      Projected windows ({ pipeline with handed := remaining, buffer }.broadcast emissions)
        (actions ++ [bufferAction]) := by
    have added : addedEvents (actions ++ [bufferAction]) = addedEvents actions := by
      rw [addedEvents_snoc, none, Option.toList_none, List.append_nil]
    subst same
    constructor
    · rw [broadcast_buffer]
      exact reached
    all_goals simp only [added, broadcast_appended, broadcast_handed, broadcast_unconfirmed,
      broadcast_tail, broadcast_log]
    · exact projected.stored
    · exact projected.complete
    · exact projected.sound
    · exact projected.ordered
    · exact projected.bounded
    · exact projected.handed
  cases action with
  | add =>
      obtain ⟨rfl, event, handed, rfl⟩ := does
      have added : addedEvents (actions ++ [.add event]) = addedEvents actions ++ [event] :=
        addedEvents_snoc _ _
      constructor
      · rw [broadcast_buffer]
        exact reached
      all_goals simp only [added, broadcast_appended, broadcast_handed,
        broadcast_unconfirmed, broadcast_tail, broadcast_log]
      · exact projected.stored
      · intro draft known
        rcases projected.complete draft known with before | now | lost
        · exact Or.inl (List.mem_append_left _ before)
        · cases handed.symm.trans now
          exact Or.inl (List.mem_append_right _ List.mem_cons_self)
        · exact Or.inr (Or.inr lost)
      · intro other member
        rcases List.mem_append.mp member with before | now
        · exact projected.sound other before
        · rw [List.mem_singleton.mp now]
          exact (projected.handed event handed).1
      · exact projected.ordered
      · exact projected.bounded
      · intro other equal
        cases equal
  | expire timer => exact quiet does.1 (by rw [does.2]; rfl)
  | flushAll => exact quiet does.1 (by rw [does.2]; rfl)
  | drain flush => exact quiet does.1 (by rw [does.2]; rfl)
  | _ => exact does.elim

/-- A step of the pipeline is at most one of the buffer. -/
theorem Projected.onward {action : PipelineAction}
    (projected : Projected windows pipeline actions)
    (stepped : Pipeline.step windows pipeline action = some next) :
    ∃ later, Projected windows next (actions ++ later) ∧
      (later = [] ∨ ∃ bufferAction remaining, later = [bufferAction] ∧
        pipeline.BufferStep action bufferAction remaining) := by
  cases step_cases stepped with
  | appended idle inserted =>
      obtain ⟨stored, ordered, bounded, sound⟩ := projected.snoc inserted
      refine ⟨[], ?_, Or.inl rfl⟩
      rw [List.append_nil]
      refine ⟨projected.reached, stored, ?_, sound, ordered, bounded, ?_⟩
      · intro draft member
        rcases List.mem_append.mp member with known | last
        · rcases projected.complete draft known with added | handed | lost
          · exact Or.inl added
          · cases idle.symm.trans handed
          · exact Or.inr (Or.inr lost)
        · rw [List.mem_singleton.mp last]
          exact Or.inr (Or.inl rfl)
      · intro event handed
        cases handed
        refine ⟨⟨_, List.mem_append_right _ List.mem_cons_self, rfl⟩, ?_⟩
        intro earlier added
        exact Int.lt_add_one_of_le (projected.added_le added)
  | failed idle =>
      refine ⟨[], ?_, Or.inl rfl⟩
      rw [List.append_nil]
      refine ⟨projected.reached, projected.stored, projected.complete, projected.sound,
        projected.ordered, ?_, projected.handed⟩
      intro draft known
      exact Int.le_add_one (projected.bounded draft known)
  | unconfirmed idle inserted =>
      obtain ⟨stored, ordered, bounded, sound⟩ := projected.snoc inserted
      refine ⟨[], ?_, Or.inl rfl⟩
      rw [List.append_nil]
      refine ⟨projected.reached, stored, ?_, sound, ordered, bounded, ?_⟩
      · intro draft member
        rcases List.mem_append.mp member with known | last
        · rcases projected.complete draft known with added | handed | lost
          · exact Or.inl added
          · exact Or.inr (Or.inl handed)
          · exact Or.inr (Or.inr (List.mem_append_left _ lost))
        · rw [List.mem_singleton.mp last]
          exact Or.inr (Or.inr (List.mem_append_right _ List.mem_cons_self))
      · intro event handed
        cases idle.symm.trans handed
  | advanced does moved => exact ⟨_, projected.advance does moved _, Or.inr ⟨_, _, rfl, does⟩⟩
  | engaged => exact ⟨[], by rw [List.append_nil]; exact { projected with }, Or.inl rfl⟩
  | released => exact ⟨[], by rw [List.append_nil]; exact { projected with }, Or.inl rfl⟩
  | subscribed _ => exact ⟨[], by rw [List.append_nil]; exact { projected with }, Or.inl rfl⟩
  | received _ _ => exact ⟨[], by rw [List.append_nil]; exact { projected with }, Or.inl rfl⟩
  | disconnected _ => exact ⟨[], by rw [List.append_nil]; exact { projected with }, Or.inl rfl⟩

theorem Projected.step {action : PipelineAction}
    (projected : Projected windows pipeline actions)
    (stepped : Pipeline.step windows pipeline action = some next) :
    ∃ later, Projected windows next (actions ++ later) := by
  obtain ⟨later, onward, -⟩ := projected.onward stepped
  exact ⟨later, onward⟩

end

end Pipeline

end OrderStream
