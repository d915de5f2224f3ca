import OrderStream.Buffer.Cohesion

/-! Orders in the buffer do not disturb one another. -/

namespace OrderStream

open Transition

def Pending.renumber (number : Nat → Nat) (entry : Pending) : Pending :=
  { entry with timer := number entry.timer, seen := 0 }

def Timer.renumber (number : Nat → Nat) (timer : Timer) : Timer :=
  { timer with id := number timer.id }

@[simp] theorem Timer.renumber_id (number : Nat → Nat) (timer : Timer) :
    (timer.renumber number).id = number timer.id := rfl

@[simp] theorem Timer.renumber_orderId (number : Nat → Nat) (timer : Timer) :
    (timer.renumber number).orderId = timer.orderId := rfl

namespace CohesionBuffer

def ownTimers (windows : Windows) (orderId : String) (buffer : CohesionBuffer)
    (own : List Nat) : BufferAction → List Nat
  | .add event =>
      if event.orderId = orderId ∧ ¬Bypasses windows event ∧
          buffer.pending.get? event.orderId = none then
        own ++ [buffer.started]
      else own
  | _ => own

/-- What a step of the buffer is for one order alone; its flush tasks are numbered anew. -/
def ownAction (orderId : String) (buffer : CohesionBuffer) (own : List Nat) :
    BufferAction → Option BufferAction
  | .add event => if event.orderId = orderId then some (.add event) else none
  | .expire id =>
      match buffer.timers.find? fun other => decide (other.id = id) with
      | some timer => if timer.orderId = orderId then some (.expire (own.idxOf id)) else none
      | none => none
  | .flushAll => some .flushAll
  | .drain flush =>
      match buffer.flushes[flush]? with
      | some (entry :: _) =>
          if entry.latest.orderId = orderId then some (.drain flush) else none
      | _ => none

/-- The adds, expiries and flushes of one order in a run of the buffer. -/
def restrict (windows : Windows) (orderId : String) :
    CohesionBuffer → List Nat → List BufferAction → List BufferAction
  | _, _, [] => []
  | buffer, own, action :: rest =>
      match step windows buffer action with
      | none => []
      | some next =>
          (buffer.ownAction orderId own action).toList ++
            restrict windows orderId next (buffer.ownTimers windows orderId own action) rest

/-- What is emitted for an order, with the events each emission stands for. -/
def emissionsOf (orderId : String) (buffer : CohesionBuffer) : List (Event × List Event) :=
  (buffer.emitted.filter fun emission => decide (emission.event.orderId = orderId)).map
    fun emission => (emission.event, emission.members)

variable {windows : Windows} {orderId : String} {own : List Nat}
  {buffer next : CohesionBuffer}

structure Owned (orderId : String) (own : List Nat) (buffer : CohesionBuffer) : Prop where
  nodup : own.Nodup
  below : ∀ id ∈ own, id < buffer.started
  timers : ∀ timer ∈ buffer.timers,
    timer.id < buffer.started ∧ (timer.id ∈ own ↔ timer.orderId = orderId)
  held : ∀ entry ∈ buffer.held,
    entry.timer < buffer.started ∧ (entry.timer ∈ own ↔ entry.latest.orderId = orderId)
  keyed : buffer.Keyed

theorem owned_init (orderId : String) : Owned orderId [] {} where
  nodup := List.nodup_nil
  below id member := by cases member
  timers timer member := by cases member
  held entry member := by simp [CohesionBuffer.held] at member
  keyed key entry stored := by cases stored

theorem Owned.pending (owned : Owned orderId own buffer) {key : String} {entry : Pending}
    (stored : buffer.pending.get? key = some entry) : entry.timer ∈ own ↔ key = orderId := by
  have held := owned.held entry ((held_pending stored).mem_iff.mpr List.mem_cons_self)
  rw [held.2, owned.keyed key entry stored]

theorem Owned.keep (owned : Owned orderId own buffer) (started : next.started = buffer.started)
    (timers : ∀ timer ∈ next.timers, timer ∈ buffer.timers)
    (held : ∀ entry ∈ next.held, entry ∈ buffer.held) (keyed : next.Keyed) :
    Owned orderId own next where
  nodup := owned.nodup
  below id member := by
    rw [started]
    exact owned.below id member
  timers timer member := by
    rw [started]
    exact owned.timers timer (timers timer member)
  held entry member := by
    rw [started]
    exact owned.held entry (held entry member)
  keyed := keyed

theorem ownTimers_opened {event : Event} (buffered : ¬Bypasses windows event)
    (absent : buffer.pending.get? event.orderId = none) :
    buffer.ownTimers windows orderId own (.add event) =
      if event.orderId = orderId then own ++ [buffer.started] else own := by
  simp only [ownTimers, buffered, absent, not_false_eq_true, and_true]

theorem Owned.opened (owned : Owned orderId own buffer) {event : Event}
    (absent : buffer.pending.get? event.orderId = none) (delay : Rat) (seen : Nat)
    (keyed : ∀ key entry,
      (buffer.pending.set event.orderId (.opened event buffer.started seen)).get? key =
        some entry → entry.latest.orderId = key) :
    Owned orderId (if event.orderId = orderId then own ++ [buffer.started] else own)
      { buffer with
        pending := buffer.pending.set event.orderId (.opened event buffer.started seen)
        timers := buffer.timers ++ [⟨buffer.started, event.orderId, delay⟩]
        started := buffer.started + 1 } := by
  have fresh : buffer.started ∉ own := fun member =>
    Nat.lt_irrefl _ (owned.below _ member)
  have kept (id : Nat) (below : id < buffer.started) :
      id ∈ (if event.orderId = orderId then own ++ [buffer.started] else own) ↔ id ∈ own := by
    split
    · simp [below.ne]
    · exact Iff.rfl
  have newest : buffer.started ∈
      (if event.orderId = orderId then own ++ [buffer.started] else own) ↔
        event.orderId = orderId := by
    split
    · simp [*]
    · simp [*]
  constructor
  · split
    · exact List.nodup_append.mpr ⟨owned.nodup, List.nodup_singleton _, by
        intro id member last isLast
        rw [List.mem_singleton.mp isLast]
        exact (owned.below id member).ne⟩
    · exact owned.nodup
  · intro id member
    by_cases below : id < buffer.started
    · exact Nat.lt_succ_of_lt below
    · split at member
      · rcases List.mem_append.mp member with known | last
        · exact absurd (owned.below id known) below
        · rw [List.mem_singleton.mp last]
          exact Nat.lt_succ_self _
      · exact absurd (owned.below id member) below
  · intro timer member
    rcases List.mem_append.mp member with known | last
    · obtain ⟨below, mine⟩ := owned.timers timer known
      exact ⟨Nat.lt_succ_of_lt below, (kept _ below).trans mine⟩
    · rw [List.mem_singleton.mp last]
      exact ⟨Nat.lt_succ_self _, newest⟩
  · intro entry member
    rcases List.mem_cons.mp ((held_opened _ absent).mem_iff.mp member) with rfl | known
    · exact ⟨Nat.lt_succ_self _, newest⟩
    · obtain ⟨below, mine⟩ := owned.held entry known
      exact ⟨Nat.lt_succ_of_lt below, (kept _ below).trans mine⟩
  · exact keyed

theorem Owned.step (owned : Owned orderId own buffer) {action : BufferAction}
    (stepped : step windows buffer action = some next) :
    Owned orderId (buffer.ownTimers windows orderId own action) next := by
  have keyed := owned.keyed.step stepped
  cases step_cases stepped with
  | bypassed bypasses =>
      simp only [ownTimers, bypasses, not_true_eq_false, false_and, and_false, if_false]
      exact owned.keep rfl (fun _ member => member) (fun _ member => member) keyed
  | opened buffered absent =>
      rw [ownTimers_opened buffered absent]
      exact owned.opened absent _ _ keyed
  | @merged event existing buffered stored =>
      simp only [ownTimers, stored, reduceCtorEq, and_false, if_false]
      refine ⟨owned.nodup, owned.below, owned.timers, ?_, keyed⟩
      intro entry member
      rcases List.mem_cons.mp ((held_merged _ _ _).mem_iff.mp member) with rfl | beside
      · have before := owned.held existing
          ((held_pending stored).mem_iff.mpr List.mem_cons_self)
        rw [owned.keyed event.orderId existing stored] at before
        exact before
      · exact owned.held entry
          ((held_pending stored).mem_iff.mpr (List.mem_cons_of_mem _ beside))
  | missed _ _ =>
      exact owned.keep rfl (fun _ member => (List.mem_filter.mp member).1)
        (fun _ member => member) keyed
  | expired _ stored =>
      refine owned.keep rfl (fun _ member => (List.mem_filter.mp member).1) ?_ keyed
      intro entry member
      exact (held_pending stored).mem_iff.mpr (List.mem_cons_of_mem _ member)
  | flushed =>
      exact owned.keep rfl (fun _ member => member)
        (fun _ member => held_flushed.mem_iff.mp member) keyed
  | drained found =>
      refine owned.keep rfl (fun _ member => (List.mem_filter.mp member).1) ?_ keyed
      intro entry member
      exact (held_drained found).mem_iff.mpr (List.mem_cons_of_mem _ member)

def ownFlush (orderId : String) (flush : List Pending) : List Pending :=
  flush.filter fun entry => decide (entry.latest.orderId = orderId)

def ownTimer (orderId : String) (timer : Timer) : Bool := decide (timer.orderId = orderId)

/-- The buffer that saw only this order: its tasks have their own numbers. -/
structure Alone (orderId : String) (own : List Nat) (buffer lone : CohesionBuffer) : Prop where
  pending : (lone.pending.get? orderId).map (Pending.renumber id) =
    (buffer.pending.get? orderId).map (Pending.renumber own.idxOf)
  others : ∀ key entry, lone.pending.get? key = some entry → key = orderId
  timers : lone.timers =
    (buffer.timers.filter (ownTimer orderId)).map (Timer.renumber own.idxOf)
  started : lone.started = own.length
  flushes : lone.flushes.map (List.map (Pending.renumber id)) =
    (buffer.flushes.map (ownFlush orderId)).map (List.map (Pending.renumber own.idxOf))
  emitted : lone.emitted.map (fun emission => (emission.event, emission.members)) =
    buffer.emissionsOf orderId

theorem alone_init (orderId : String) : Alone orderId [] {} {} where
  pending := rfl
  others key entry stored := by cases stored
  timers := rfl
  started := rfl
  flushes := rfl
  emitted := rfl

theorem emissionsOf_emit (emission : Emission) :
    (buffer.emit emission).emissionsOf orderId =
      buffer.emissionsOf orderId ++
        if emission.event.orderId = orderId then [(emission.event, emission.members)]
        else [] := by
  rw [emissionsOf, emit, List.filter_append, List.map_append]
  by_cases mine : emission.event.orderId = orderId
  · simp [mine, emissionsOf]
  · simp [mine, emissionsOf]

theorem find?_renumber {timers : List Timer} {id : Nat} {timer : Timer}
    (known : ∀ timer ∈ timers, ownTimer orderId timer = true → timer.id ∈ own)
    (found : timers.find? (fun other => decide (other.id = id)) = some timer)
    (mine : ownTimer orderId timer = true) :
    ((timers.filter (ownTimer orderId)).map (Timer.renumber own.idxOf)).find?
        (fun other => decide (other.id = own.idxOf id)) =
      some (timer.renumber own.idxOf) := by
  induction timers with
  | nil => cases found
  | cons first rest ih =>
      have restKnown := fun timer member => known timer (List.mem_cons_of_mem first member)
      rw [List.find?_cons] at found
      by_cases same : first.id = id
      · simp only [same, decide_true, Option.some.injEq] at found
        subst found
        rw [List.filter_cons_of_pos mine, List.map_cons, List.find?_cons]
        simp [Timer.renumber, same]
      · simp only [same, decide_false] at found
        by_cases ours : ownTimer orderId first = true
        · have member := known first List.mem_cons_self ours
          rw [List.filter_cons_of_pos ours, List.map_cons, List.find?_cons]
          simp only [Timer.renumber, List.idxOf_inj member, same, decide_false]
          exact ih restKnown found
        · rw [List.filter_cons_of_neg ours]
          exact ih restKnown found

theorem stopTimer_renumber {timers : List Timer} {id : Nat}
    (known : ∀ timer ∈ timers, ownTimer orderId timer = true → timer.id ∈ own) :
    stopTimer (own.idxOf id)
        ((timers.filter (ownTimer orderId)).map (Timer.renumber own.idxOf)) =
      ((stopTimer id timers).filter (ownTimer orderId)).map (Timer.renumber own.idxOf) := by
  unfold stopTimer
  rw [List.filter_map, List.filter_filter, List.filter_filter]
  apply congrArg
  apply List.filter_congr
  intro timer member
  cases ours : ownTimer orderId timer with
  | false => simp
  | true => simp [Timer.renumber, List.idxOf_inj (known timer member ours)]

theorem stopTimer_of_other {timers : List Timer} {id : Nat}
    (known : ∀ timer ∈ timers, ownTimer orderId timer = true → timer.id ∈ own)
    (other : id ∉ own) :
    (stopTimer id timers).filter (ownTimer orderId) = timers.filter (ownTimer orderId) := by
  unfold stopTimer
  rw [List.filter_filter]
  apply List.filter_congr
  intro timer member
  cases ours : ownTimer orderId timer with
  | false => rfl
  | true =>
      have differs : timer.id ≠ id := fun same => other (same ▸ known timer member ours)
      simp [differs]

section Step

variable {lone : CohesionBuffer}

theorem Alone.frame (alone : Alone orderId own buffer lone)
    (pending : next.pending.get? orderId = buffer.pending.get? orderId)
    (timers : next.timers.filter (ownTimer orderId) = buffer.timers.filter (ownTimer orderId))
    (flushes : next.flushes.map (ownFlush orderId) = buffer.flushes.map (ownFlush orderId))
    (emitted : next.emissionsOf orderId = buffer.emissionsOf orderId) :
    Alone orderId own next lone where
  pending := by rw [pending, alone.pending]
  others := alone.others
  timers := by rw [timers, alone.timers]
  started := alone.started
  flushes := by rw [flushes, alone.flushes]
  emitted := by rw [emitted, alone.emitted]

theorem Owned.timers_known (owned : Owned orderId own buffer) :
    ∀ timer ∈ buffer.timers, ownTimer orderId timer = true → timer.id ∈ own := by
  intro timer member mine
  exact (owned.timers timer member).2.mpr (of_decide_eq_true mine)

theorem Alone.pending_none (alone : Alone orderId own buffer lone)
    (absent : buffer.pending.get? orderId = none) : lone.pending.get? orderId = none := by
  have same := alone.pending
  rwa [absent, Option.map_none, Option.map_eq_none_iff] at same

theorem Alone.pending_some (alone : Alone orderId own buffer lone) {entry : Pending}
    (stored : buffer.pending.get? orderId = some entry) :
    ∃ other, lone.pending.get? orderId = some other ∧
      other.renumber id = entry.renumber own.idxOf := by
  have same := alone.pending
  rwa [stored, Option.map_some, Option.map_eq_some_iff] at same

theorem emission_renumber {entry other : Pending} {number : Nat → Nat}
    (same : other.renumber id = entry.renumber number) :
    other.emission.event = entry.emission.event ∧
      other.emission.members = entry.emission.members ∧ other.timer = number entry.timer := by
  have event : (other.renumber id).latest = (entry.renumber number).latest :=
    congrArg Pending.latest same
  have members : (other.renumber id).members = (entry.renumber number).members :=
    congrArg Pending.members same
  have timer : (other.renumber id).timer = (entry.renumber number).timer :=
    congrArg Pending.timer same
  exact ⟨event, members, timer⟩

theorem map_told_emit (emission : Emission) :
    (lone.emit emission).emitted.map (fun emission => (emission.event, emission.members)) =
      lone.emitted.map (fun emission => (emission.event, emission.members)) ++
        [(emission.event, emission.members)] := by
  rw [emit, List.map_append, List.map_singleton]

theorem Alone.bypassed (alone : Alone orderId own buffer lone) {event : Event}
    (bypasses : Bypasses windows event) (mine : event.orderId = orderId) :
    ∃ after, step windows lone (.add event) = some after ∧
      Alone orderId own (buffer.emit (.bypass event)) after := by
  refine ⟨_, step_of (.bypassed bypasses), ?_⟩
  refine ⟨alone.pending, alone.others, alone.timers, alone.started, alone.flushes, ?_⟩
  rw [map_told_emit, emissionsOf_emit, alone.emitted]
  simp [Emission.bypass, mine]

theorem Alone.opened (alone : Alone orderId own buffer lone) (owned : Owned orderId own buffer)
    {event : Event} (buffered : ¬Bypasses windows event) (mine : event.orderId = orderId)
    (absent : buffer.pending.get? event.orderId = none) (seen : Nat) :
    ∃ after, step windows lone (.add event) = some after ∧
      Alone orderId (own ++ [buffer.started])
        { buffer with
          pending := buffer.pending.set event.orderId (.opened event buffer.started seen)
          timers := buffer.timers ++
            [⟨buffer.started, event.orderId, windowFor windows event.intent⟩]
          started := buffer.started + 1 } after := by
  subst mine
  have empty := alone.pending_none absent
  have fresh : buffer.started ∉ own := fun member =>
    Nat.lt_irrefl _ (owned.below _ member)
  have newest : (own ++ [buffer.started]).idxOf buffer.started = lone.started := by
    rw [List.idxOf_append, if_neg fresh, List.idxOf_cons_self, Nat.zero_add, alone.started]
  have kept (id : Nat) (known : id ∈ own) : (own ++ [buffer.started]).idxOf id = own.idxOf id :=
    List.idxOf_append_of_mem known
  refine ⟨_, step_of (.opened buffered empty), ?_⟩
  constructor
  · simp [PyDict.get?_set_self, Pending.renumber, Pending.opened, newest]
  · intro key entry stored
    rw [PyDict.get?_set] at stored
    split at stored
    · assumption
    · exact alone.others key entry stored
  · dsimp only
    rw [alone.timers, List.filter_append, List.map_append]
    congr 1
    · apply List.map_congr_left
      intro timer member
      obtain ⟨known, ours⟩ := List.mem_filter.mp member
      simp [Timer.renumber, kept _ (owned.timers_known timer known ours)]
    · simp [ownTimer, Timer.renumber, newest]
  · simp [alone.started]
  · dsimp only
    rw [alone.flushes, List.map_map, List.map_map]
    apply List.map_congr_left
    intro flush member
    apply List.map_congr_left
    intro entry inFlush
    obtain ⟨inside, ours⟩ := List.mem_filter.mp inFlush
    have held : entry ∈ buffer.held :=
      List.mem_append_right _ (List.mem_flatten.mpr ⟨flush, member, inside⟩)
    have known := (owned.held entry held).2.mpr (of_decide_eq_true ours)
    simp [Pending.renumber, kept _ known]
  · exact alone.emitted

theorem Alone.merged (alone : Alone orderId own buffer lone) {event : Event}
    {existing : Pending} (buffered : ¬Bypasses windows event) (mine : event.orderId = orderId)
    (stored : buffer.pending.get? event.orderId = some existing) (seen : Nat) :
    ∃ after, step windows lone (.add event) = some after ∧
      Alone orderId own
        { buffer with
          pending := buffer.pending.set event.orderId (existing.merge event seen) } after := by
  subst mine
  obtain ⟨other, found, same⟩ := alone.pending_some stored
  refine ⟨_, step_of (.merged buffered found), ?_⟩
  refine ⟨?_, ?_, alone.timers, alone.started, alone.flushes, alone.emitted⟩
  · simp only [PyDict.get?_set_self, Option.map_some, Option.some.injEq]
    exact congrArg (fun entry => Pending.merge entry event 0) same
  · intro key entry pending
    rw [PyDict.get?_set] at pending
    split at pending
    · assumption
    · exact alone.others key entry pending

theorem Alone.missed (alone : Alone orderId own buffer lone) (owned : Owned orderId own buffer)
    {id : Nat} {timer : Timer}
    (found : buffer.timers.find? (fun other => decide (other.id = id)) = some timer)
    (mine : timer.orderId = orderId) (absent : buffer.pending.get? timer.orderId = none) :
    ∃ after, step windows lone (.expire (own.idxOf id)) = some after ∧
      Alone orderId own { buffer with timers := stopTimer timer.id buffer.timers } after := by
  subst mine
  have empty := alone.pending_none absent
  have located := find?_renumber owned.timers_known found (decide_eq_true rfl)
  rw [← alone.timers] at located
  refine ⟨_, step_of (.missed located empty), ?_⟩
  refine ⟨alone.pending, alone.others, ?_, alone.started, alone.flushes, alone.emitted⟩
  rw [Timer.renumber_id, alone.timers, stopTimer_renumber owned.timers_known]

theorem Alone.expired (alone : Alone orderId own buffer lone) (owned : Owned orderId own buffer)
    {id : Nat} {timer : Timer} {entry : Pending}
    (found : buffer.timers.find? (fun other => decide (other.id = id)) = some timer)
    (mine : timer.orderId = orderId)
    (stored : buffer.pending.get? timer.orderId = some entry) :
    ∃ after, step windows lone (.expire (own.idxOf id)) = some after ∧
      Alone orderId own
        ({ buffer with
          timers := stopTimer timer.id buffer.timers
          pending := buffer.pending.erase timer.orderId }.emit entry.emission) after := by
  subst mine
  obtain ⟨other, pending, same⟩ := alone.pending_some stored
  have located := find?_renumber owned.timers_known found (decide_eq_true rfl)
  rw [← alone.timers] at located
  obtain ⟨event, members, -⟩ := emission_renumber same
  refine ⟨_, step_of (.expired located pending), ?_⟩
  constructor
  · simp [emit]
  · intro key entry stored
    simp only [emit, PyDict.get?_erase] at stored
    split at stored
    · cases stored
    · exact alone.others key entry stored
  · simp only [emit, Timer.renumber_id]
    rw [alone.timers, stopTimer_renumber owned.timers_known]
  · exact alone.started
  · exact alone.flushes
  · rw [map_told_emit, emissionsOf_emit, event, members]
    have named : entry.emission.event.orderId = timer.orderId :=
      owned.keyed timer.orderId entry stored
    rw [if_pos named]
    exact congrArg (· ++ [(entry.emission.event, entry.emission.members)]) alone.emitted

theorem values_of_single {dict : PyDict String Pending}
    (only : ∀ key entry, dict.get? key = some entry → key = orderId) :
    dict.values = (dict.get? orderId).toList := by
  rw [← PyDict.filter_values (fun key entry stored => (only key entry stored).symm) orderId]
  simp

theorem Alone.flushed (alone : Alone orderId own buffer lone)
    (owned : Owned orderId own buffer) :
    ∃ after, step windows lone .flushAll = some after ∧
      Alone orderId own
        { buffer with
          pending := ∅
          flushes := buffer.flushes ++ [buffer.pending.values] } after := by
  have entries : ownFlush orderId buffer.pending.values =
      (buffer.pending.get? orderId).toList :=
    PyDict.filter_values owned.keyed orderId
  have same : lone.pending.values.map (Pending.renumber id) =
      (buffer.pending.get? orderId).toList.map (Pending.renumber own.idxOf) := by
    rw [values_of_single alone.others, ← Option.toList_map, alone.pending, Option.toList_map]
  refine ⟨_, step_of .flushed, ?_⟩
  constructor
  · rfl
  · intro key entry stored
    cases stored
  · exact alone.timers
  · exact alone.started
  · simp only [List.map_append, alone.flushes, List.map_singleton, entries, same]
  · exact alone.emitted

theorem Alone.drained (alone : Alone orderId own buffer lone) (owned : Owned orderId own buffer)
    {flush : Nat} {entry : Pending} {rest : List Pending}
    (found : buffer.flushes[flush]? = some (entry :: rest))
    (mine : entry.latest.orderId = orderId) :
    ∃ after, step windows lone (.drain flush) = some after ∧
      Alone orderId own
        ({ buffer with
          flushes := buffer.flushes.set flush rest
          timers := stopTimer entry.timer buffer.timers }.emit entry.emission) after := by
  have kept : ownFlush orderId (entry :: rest) = entry :: ownFlush orderId rest :=
    List.filter_cons_of_pos (decide_eq_true mine)
  have located := congrArg (fun flushes => flushes[flush]?) alone.flushes
  simp only [List.getElem?_map, found, Option.map_some, kept, List.map_cons,
    Option.map_eq_some_iff] at located
  obtain ⟨list, at_flush, cells⟩ := located
  cases list with
  | nil => cases cells
  | cons other others =>
      obtain ⟨same, remaining⟩ := List.cons.inj cells
      obtain ⟨event, members, timer⟩ := emission_renumber same
      refine ⟨_, step_of (.drained at_flush), ?_⟩
      constructor
      · exact alone.pending
      · exact alone.others
      · simp only [emit, timer]
        rw [alone.timers, stopTimer_renumber owned.timers_known]
      · exact alone.started
      · simp only [emit, List.map_set, alone.flushes, remaining]
      · rw [map_told_emit, emissionsOf_emit, event, members]
        rw [if_pos (show entry.emission.event.orderId = orderId from mine)]
        exact congrArg (· ++ [(entry.emission.event, entry.emission.members)]) alone.emitted

theorem exec_one {action : BufferAction} {after : CohesionBuffer}
    (stepped : step windows lone action = some after) :
    exec (step windows) lone [action] = some after := by
  rw [exec, stepped]
  rfl

theorem emissionsOf_emit_of_ne {emission : Emission}
    (other : emission.event.orderId ≠ orderId) :
    (buffer.emit emission).emissionsOf orderId = buffer.emissionsOf orderId := by
  rw [emissionsOf_emit, if_neg other, List.append_nil]

theorem map_set_of_same {lists : List (List Pending)} {flush : Nat} {list shorter : List Pending}
    (found : lists[flush]? = some list)
    (same : ownFlush orderId shorter = ownFlush orderId list) :
    (lists.set flush shorter).map (ownFlush orderId) = lists.map (ownFlush orderId) := by
  obtain ⟨bound, at_flush⟩ := List.getElem?_eq_some_iff.mp found
  have mapped : flush < (lists.map (ownFlush orderId)).length := by simpa using bound
  have unchanged := List.set_getElem_self mapped
  rw [List.getElem_map, at_flush] at unchanged
  rw [List.map_set, same, unchanged]

theorem Alone.step (alone : Alone orderId own buffer lone) (owned : Owned orderId own buffer)
    {action : BufferAction} (stepped : CohesionBuffer.step windows buffer action = some next) :
    ∃ after, exec (CohesionBuffer.step windows) lone
        (buffer.ownAction orderId own action).toList = some after ∧
      Alone orderId (buffer.ownTimers windows orderId own action) next after := by
  cases step_cases stepped with
  | @bypassed event bypasses =>
      simp only [ownTimers, bypasses, not_true_eq_false, false_and, and_false, if_false,
        ownAction]
      by_cases mine : event.orderId = orderId
      · rw [if_pos mine]
        obtain ⟨after, moved, still⟩ := alone.bypassed bypasses mine
        exact ⟨after, exec_one moved, still⟩
      · rw [if_neg mine]
        exact ⟨lone, rfl, alone.frame rfl rfl rfl (emissionsOf_emit_of_ne mine)⟩
  | @opened event buffered absent =>
      rw [ownTimers_opened buffered absent, ownAction]
      by_cases mine : event.orderId = orderId
      · rw [if_pos mine, if_pos mine]
        obtain ⟨after, moved, still⟩ := alone.opened owned buffered mine absent _
        exact ⟨after, exec_one moved, still⟩
      · rw [if_neg mine, if_neg mine]
        refine ⟨lone, rfl, alone.frame ?_ ?_ rfl rfl⟩
        · exact PyDict.get?_set_of_ne _ _ (Ne.symm mine)
        · rw [List.filter_append]
          simp [ownTimer, mine]
  | @merged event existing buffered stored =>
      simp only [ownTimers, stored, reduceCtorEq, and_false, if_false, ownAction]
      by_cases mine : event.orderId = orderId
      · rw [if_pos mine]
        obtain ⟨after, moved, still⟩ := alone.merged buffered mine stored _
        exact ⟨after, exec_one moved, still⟩
      · rw [if_neg mine]
        refine ⟨lone, rfl, alone.frame ?_ rfl rfl rfl⟩
        exact PyDict.get?_set_of_ne _ _ (Ne.symm mine)
  | @missed id timer found absent =>
      simp only [ownTimers, ownAction, found]
      by_cases mine : timer.orderId = orderId
      · rw [if_pos mine]
        obtain ⟨after, moved, still⟩ := alone.missed owned found mine absent
        exact ⟨after, exec_one moved, still⟩
      · rw [if_neg mine]
        refine ⟨lone, rfl, alone.frame rfl ?_ rfl rfl⟩
        have other := mt (owned.timers timer (List.mem_of_find?_eq_some found)).2.mp mine
        exact stopTimer_of_other owned.timers_known other
  | @expired id timer entry found stored =>
      simp only [ownTimers, ownAction, found]
      by_cases mine : timer.orderId = orderId
      · rw [if_pos mine]
        obtain ⟨after, moved, still⟩ := alone.expired owned found mine stored
        exact ⟨after, exec_one moved, still⟩
      · rw [if_neg mine]
        refine ⟨lone, rfl, alone.frame ?_ ?_ rfl ?_⟩
        · exact PyDict.get?_erase_of_ne _ (Ne.symm mine)
        · have other := mt (owned.timers timer (List.mem_of_find?_eq_some found)).2.mp mine
          exact stopTimer_of_other owned.timers_known other
        · have named : entry.emission.event.orderId = timer.orderId :=
            owned.keyed timer.orderId entry stored
          rw [emissionsOf_emit_of_ne (named ▸ mine)]
          rfl
  | flushed =>
      obtain ⟨after, moved, still⟩ :
          ∃ after, CohesionBuffer.step windows lone .flushAll = some after ∧ _ :=
        alone.flushed owned
      exact ⟨after, exec_one moved, still⟩
  | @drained flush entry rest found =>
      simp only [ownTimers, ownAction, found]
      by_cases mine : entry.latest.orderId = orderId
      · rw [if_pos mine]
        obtain ⟨after, moved, still⟩ := alone.drained owned found mine
        exact ⟨after, exec_one moved, still⟩
      · rw [if_neg mine]
        have held : entry ∈ buffer.held :=
          (held_drained found).mem_iff.mpr List.mem_cons_self
        refine ⟨lone, rfl, alone.frame rfl ?_ ?_ ?_⟩
        · exact stopTimer_of_other owned.timers_known (mt (owned.held entry held).2.mp mine)
        · exact map_set_of_same found
            (List.filter_cons_of_neg (by simpa using mine)).symm
        · rw [emissionsOf_emit_of_ne mine]
          rfl

/-- A run of the buffer is, for one order, the run of the order's own steps. -/
theorem alone_run {actions : List BufferAction} (alone : Alone orderId own buffer lone)
    (owned : Owned orderId own buffer)
    (reached : exec (CohesionBuffer.step windows) buffer actions = some next) :
    ∃ own' after, exec (CohesionBuffer.step windows) lone
        (restrict windows orderId buffer own actions) = some after ∧
      Alone orderId own' next after := by
  induction actions generalizing buffer lone own with
  | nil =>
      cases reached
      exact ⟨own, lone, rfl, alone⟩
  | cons action rest ih =>
      obtain ⟨middle, stepped, reached⟩ := Option.bind_eq_some_iff.mp reached
      obtain ⟨after, moved, still⟩ := alone.step owned stepped
      obtain ⟨own', last, ran, there⟩ := ih still (owned.step stepped) reached
      refine ⟨own', last, ?_, there⟩
      rw [restrict, stepped]
      exact exec_append_some.mpr ⟨after, moved, ran⟩

end Step

/-- What the buffer emits for an order is what it would emit if it saw the adds, the
expiries and the flushes of that order only; so it is the same in any two runs with the
same steps of the order. -/
theorem orders_independent {actions : List BufferAction}
    (reached : exec (step windows) {} actions = some buffer) (orderId : String) :
    (∃ lone, exec (step windows) {} (restrict windows orderId {} [] actions) = some lone ∧
      lone.emitted.map (fun emission => (emission.event, emission.members)) =
        buffer.emissionsOf orderId) ∧
    ∀ others other, exec (step windows) {} others = some other →
      restrict windows orderId {} [] others = restrict windows orderId {} [] actions →
        other.emissionsOf orderId = buffer.emissionsOf orderId := by
  obtain ⟨_, lone, ran, alone⟩ := alone_run (alone_init orderId) (owned_init orderId) reached
  refine ⟨⟨lone, ran, alone.emitted⟩, ?_⟩
  intro others other otherReached agree
  obtain ⟨_, otherLone, otherRan, otherAlone⟩ :=
    alone_run (alone_init orderId) (owned_init orderId) otherReached
  rw [agree, ran] at otherRan
  cases otherRan
  rw [← otherAlone.emitted, alone.emitted]

def validatedOf (orderId : String) : Event := { validated with orderId }

def twoOrders : List BufferAction :=
  [.add (validatedOf "2"), .add (validatedOf "1"), .expire 1, .flushAll, .drain 0]

theorem orders_independent_of_two : ∃ buffer lone,
    exec (step sampleWindows) {} twoOrders = some buffer ∧
      exec (step sampleWindows) {}
        (restrict sampleWindows "1" {} [] twoOrders) = some lone ∧
      lone.emitted.map (fun emission => (emission.event, emission.members)) =
        buffer.emissionsOf "1" ∧
      lone.emitted.length = 1 := by
  have ran : (exec (step sampleWindows) {} twoOrders).map
      (fun buffer => (buffer.emissionsOf "1").length) = some 1 := by
    decide +kernel
  obtain ⟨buffer, reached, one⟩ := Option.map_eq_some_iff.mp ran
  obtain ⟨⟨lone, alone, same⟩, -⟩ := orders_independent reached "1"
  refine ⟨buffer, lone, reached, alone, same, ?_⟩
  have lengths := congrArg List.length same
  rwa [List.length_map, one] at lengths

end CohesionBuffer

end OrderStream
