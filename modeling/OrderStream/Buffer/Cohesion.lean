import Mathlib.Data.Rat.Defs
import OrderStream.Intent
import OrderStream.Theory.Transition

namespace OrderStream

open Transition

structure Windows where
  status : Rat
  price : Rat
  default : Rat

def windowFor (windows : Windows) : Intent → Rat
  | .cancellation | .newOrder | .deletion => 0
  | .statusChange => windows.status
  | .priceCorrection => windows.price
  | .other => windows.default

/-- A `_Pending` with the flush task that was started for it.  Two fields are not
in the source: the events merged so far, and how many events had been emitted when
the last of them came. -/
structure Pending where
  initial : Event
  latest : Event
  timer : Nat
  count : Nat := 1
  members : List Event
  seen : Nat

/-- A flush task asleep: `_flush_after(order_id, delay)`. -/
structure Timer where
  id : Nat
  orderId : String
  delay : Rat

/-- One call of `emit`, with the events it stands for and the flush task of the
entry it comes from; `none` for an event that bypassed the buffer. -/
structure Emission where
  event : Event
  members : List Event
  entry : Option Nat

/-- `flushes` holds what each running `flush_all` has still to emit. -/
structure CohesionBuffer where
  pending : PyDict String Pending := ∅
  timers : List Timer := []
  started : Nat := 0
  flushes : List (List Pending) := []
  emitted : List Emission := []

inductive BufferAction where
  | add (event : Event)
  | expire (timer : Nat)
  | flushAll
  | drain (flush : Nat)

def BufferAction.added? : BufferAction → Option Event
  | .add event => some event
  | _ => none

def addedEvents (actions : List BufferAction) : List Event :=
  actions.filterMap BufferAction.added?

theorem addedEvents_snoc (actions : List BufferAction) (action : BufferAction) :
    addedEvents (actions ++ [action]) = addedEvents actions ++ action.added?.toList := by
  rw [addedEvents, List.filterMap_append]
  cases added : action.added? <;> simp [addedEvents, added]

namespace Pending

def opened (event : Event) (timer seen : Nat) : Pending where
  initial := event
  latest := event
  timer := timer
  members := [event]
  seen := seen

def merge (existing : Pending) (event : Event) (seen : Nat) : Pending :=
  { existing with
    latest := { event with
      diff := mergeDiffs existing.initial.diff event.diff
      before := existing.initial.before
      coalesced := true
      coalescedCount := existing.count + 1 }
    count := existing.count + 1
    members := existing.members ++ [event]
    seen }

def emission (pending : Pending) : Emission where
  event := pending.latest
  members := pending.members
  entry := some pending.timer

end Pending

def Emission.bypass (event : Event) : Emission where
  event := event
  members := [event]
  entry := none

namespace CohesionBuffer

def emit (buffer : CohesionBuffer) (emission : Emission) : CohesionBuffer :=
  { buffer with emitted := buffer.emitted ++ [emission] }

def Bypasses (windows : Windows) (event : Event) : Prop :=
  windowFor windows event.intent ≤ 0 ∨ event.priority = .urgent

instance (windows : Windows) (event : Event) : Decidable (Bypasses windows event) :=
  inferInstanceAs (Decidable (_ ∨ _))

def add (windows : Windows) (buffer : CohesionBuffer) (event : Event) : CohesionBuffer :=
  if Bypasses windows event then
    buffer.emit (.bypass event)
  else
    match buffer.pending.get? event.orderId with
    | none =>
        { buffer with
          pending := buffer.pending.set event.orderId
            (.opened event buffer.started buffer.emitted.length)
          timers := buffer.timers ++
            [⟨buffer.started, event.orderId, windowFor windows event.intent⟩]
          started := buffer.started + 1 }
    | some existing =>
        { buffer with
          pending := buffer.pending.set event.orderId
            (existing.merge event buffer.emitted.length) }

def stopTimer (timer : Nat) (timers : List Timer) : List Timer :=
  timers.filter fun other => decide (other.id ≠ timer)

/-- A flush task wakes up and pops whatever entry its order has by then. -/
def expire (buffer : CohesionBuffer) (timer : Timer) : CohesionBuffer :=
  let buffer := { buffer with timers := stopTimer timer.id buffer.timers }
  match buffer.pending.get? timer.orderId with
  | none => buffer
  | some pending =>
      { buffer with pending := buffer.pending.erase timer.orderId }.emit pending.emission

def step (windows : Windows) (buffer : CohesionBuffer) :
    BufferAction → Option CohesionBuffer
  | .add event => some (buffer.add windows event)
  | .expire timer =>
      (buffer.timers.find? fun other => decide (other.id = timer)).map buffer.expire
  | .flushAll =>
      some { buffer with
        pending := ∅
        flushes := buffer.flushes ++ [buffer.pending.values] }
  | .drain flush =>
      match buffer.flushes[flush]? with
      | some (entry :: rest) =>
          some ({ buffer with
            flushes := buffer.flushes.set flush rest
            timers := stopTimer entry.timer buffer.timers }.emit entry.emission)
      | _ => none

def held (buffer : CohesionBuffer) : List Pending :=
  buffer.pending.values ++ buffer.flushes.flatten

inductive Step (windows : Windows) (buffer : CohesionBuffer) :
    BufferAction → CohesionBuffer → Prop where
  | bypassed {event : Event} : Bypasses windows event →
      Step windows buffer (.add event) (buffer.emit (.bypass event))
  | opened {event : Event} : ¬Bypasses windows event →
      buffer.pending.get? event.orderId = none →
        Step windows buffer (.add event)
          { buffer with
            pending := buffer.pending.set event.orderId
              (.opened event buffer.started buffer.emitted.length)
            timers := buffer.timers ++
              [⟨buffer.started, event.orderId, windowFor windows event.intent⟩]
            started := buffer.started + 1 }
  | merged {event : Event} {existing : Pending} : ¬Bypasses windows event →
      buffer.pending.get? event.orderId = some existing →
        Step windows buffer (.add event)
          { buffer with
            pending := buffer.pending.set event.orderId
              (existing.merge event buffer.emitted.length) }
  | missed {id : Nat} {timer : Timer} :
      buffer.timers.find? (fun other => decide (other.id = id)) = some timer →
        buffer.pending.get? timer.orderId = none →
          Step windows buffer (.expire id)
            { buffer with timers := stopTimer timer.id buffer.timers }
  | expired {id : Nat} {timer : Timer} {entry : Pending} :
      buffer.timers.find? (fun other => decide (other.id = id)) = some timer →
        buffer.pending.get? timer.orderId = some entry →
          Step windows buffer (.expire id)
            ({ buffer with
              timers := stopTimer timer.id buffer.timers
              pending := buffer.pending.erase timer.orderId }.emit entry.emission)
  | flushed : Step windows buffer .flushAll
      { buffer with
        pending := ∅
        flushes := buffer.flushes ++ [buffer.pending.values] }
  | drained {flush : Nat} {entry : Pending} {rest : List Pending} :
      buffer.flushes[flush]? = some (entry :: rest) →
        Step windows buffer (.drain flush)
          ({ buffer with
            flushes := buffer.flushes.set flush rest
            timers := stopTimer entry.timer buffer.timers }.emit entry.emission)

theorem step_cases {windows : Windows} {buffer next : CohesionBuffer}
    {action : BufferAction} (stepped : step windows buffer action = some next) :
    Step windows buffer action next := by
  cases action with
  | add event =>
      simp only [step, Option.some.injEq] at stepped
      subst stepped
      unfold add
      split
      · exact .bypassed ‹_›
      · split
        · exact .opened ‹_› ‹_›
        · exact .merged ‹_› ‹_›
  | expire id =>
      obtain ⟨timer, found, rfl⟩ := Option.map_eq_some_iff.mp stepped
      unfold expire
      dsimp only
      split
      · exact .missed found ‹_›
      · exact .expired found ‹_›
  | flushAll =>
      cases stepped
      exact .flushed
  | drain flush =>
      simp only [step] at stepped
      split at stepped
      · cases stepped
        exact .drained ‹_›
      · cases stepped

theorem step_of {windows : Windows} {buffer next : CohesionBuffer} {action : BufferAction}
    (can : Step windows buffer action next) : step windows buffer action = some next := by
  cases can with
  | bypassed bypasses => simp only [step, add, if_pos bypasses]
  | opened buffered absent => simp only [step, add, if_neg buffered, absent]
  | merged buffered stored => simp only [step, add, if_neg buffered, stored]
  | missed found absent => simp only [step, found, Option.map_some, expire, absent]
  | expired found stored => simp only [step, found, Option.map_some, expire, stored]
  | flushed => rfl
  | drained found => simp only [step, found]

theorem flatten_perm_set {lists : List (List α)} {index : Nat} {first : α} {rest : List α}
    (found : lists[index]? = some (first :: rest)) :
    lists.flatten.Perm (first :: (lists.set index rest).flatten) := by
  induction lists generalizing index with
  | nil => cases found
  | cons list lists ih =>
      cases index with
      | zero =>
          cases found
          exact List.Perm.refl _
      | succ index =>
          rw [List.set_cons_succ, List.flatten_cons, List.flatten_cons]
          exact ((ih found).append_left list).trans List.perm_middle

variable {windows : Windows} {buffer : CohesionBuffer}

theorem held_opened {key : String} (entry : Pending)
    (absent : buffer.pending.get? key = none) :
    ((buffer.pending.set key entry).values ++ buffer.flushes.flatten).Perm
      (entry :: buffer.held) :=
  (PyDict.values_set_perm_of_absent entry absent).append_right _

def beside (buffer : CohesionBuffer) (key : String) : List Pending :=
  (buffer.pending.erase key).values ++ buffer.flushes.flatten

theorem held_pending {key : String} {entry : Pending}
    (stored : buffer.pending.get? key = some entry) :
    buffer.held.Perm (entry :: buffer.beside key) :=
  (PyDict.values_perm stored).append_right _

theorem held_merged (buffer : CohesionBuffer) (key : String) (entry : Pending) :
    ((buffer.pending.set key entry).values ++ buffer.flushes.flatten).Perm
      (entry :: buffer.beside key) :=
  (PyDict.values_set_perm buffer.pending key entry).append_right _

theorem held_flushed :
    ((∅ : PyDict String Pending).values ++
      (buffer.flushes ++ [buffer.pending.values]).flatten).Perm buffer.held := by
  rw [PyDict.values_empty, List.nil_append, List.flatten_append, List.flatten_singleton]
  exact List.perm_append_comm

theorem held_drained {flush : Nat} {entry : Pending} {rest : List Pending}
    (found : buffer.flushes[flush]? = some (entry :: rest)) :
    buffer.held.Perm
      (entry :: (buffer.pending.values ++ (buffer.flushes.set flush rest).flatten)) :=
  ((flatten_perm_set found).append_left _).trans List.perm_middle

def Keyed (buffer : CohesionBuffer) : Prop :=
  ∀ key entry, buffer.pending.get? key = some entry → entry.latest.orderId = key

theorem keyed_set {key : String} {entry : Pending} (keyed : buffer.Keyed)
    (named : entry.latest.orderId = key) :
    ∀ other found, (buffer.pending.set key entry).get? other = some found →
      found.latest.orderId = other := by
  intro other found stored
  rw [PyDict.get?_set] at stored
  split at stored
  · rename_i same
    cases stored
    exact named.trans same.symm
  · exact keyed other found stored

theorem Keyed.step {action : BufferAction} {next : CohesionBuffer} (keyed : buffer.Keyed)
    (stepped : step windows buffer action = some next) : next.Keyed := by
  cases step_cases stepped with
  | bypassed _ => exact keyed
  | opened _ _ => exact keyed_set keyed rfl
  | merged _ _ => exact keyed_set keyed rfl
  | missed _ _ => exact keyed
  | expired _ _ =>
      intro key entry stored
      apply keyed key entry
      simp only [emit, PyDict.get?_erase] at stored
      split at stored
      · cases stored
      · exact stored
  | flushed =>
      intro key entry stored
      cases stored
  | drained _ => exact keyed

theorem keyed_of_reached {actions : List BufferAction}
    (reached : exec (step windows) {} actions = some buffer) : buffer.Keyed := by
  apply exec_invariant (motive := Keyed) _ _ reached
  · intro key entry stored
    cases stored
  · intro state action finish keyed stepped
    exact keyed.step stepped

/-- What opening an entry establishes and merging keeps holds of every entry held after a
step, and what follows from it of every event emitted. -/
theorem entries_kept (entry : Pending → Prop) (emission : Emission → Prop)
    {action : BufferAction} {next : CohesionBuffer}
    (stepped : step windows buffer action = some next)
    (passed : ∀ event, action = .add event → emission (.bypass event))
    (opened : ∀ event, action = .add event → ¬Bypasses windows event →
      ∀ timer seen, entry (.opened event timer seen))
    (merged : ∀ event existing, action = .add event → ¬Bypasses windows event →
      buffer.pending.get? event.orderId = some existing → entry existing →
        ∀ seen, entry (existing.merge event seen))
    (emitted : ∀ pending, entry pending → emission pending.emission)
    (entries : ∀ pending ∈ buffer.held, entry pending)
    (emissions : ∀ one ∈ buffer.emitted, emission one) :
    (∀ pending ∈ next.held, entry pending) ∧ ∀ one ∈ next.emitted, emission one := by
  have emits (last : Emission) (fits : emission last) :
      ∀ one ∈ buffer.emitted ++ [last], emission one := by
    intro one found
    rcases List.mem_append.mp found with earlier | final
    · exact emissions one earlier
    · rw [List.mem_singleton.mp final]
      exact fits
  cases step_cases stepped with
  | bypassed _ => exact ⟨entries, emits _ (passed _ rfl)⟩
  | opened patient absent =>
      refine ⟨?_, emissions⟩
      intro pending member
      rcases List.mem_cons.mp ((held_opened _ absent).mem_iff.mp member) with rfl | member
      · exact opened _ rfl patient _ _
      · exact entries pending member
  | merged patient stored =>
      refine ⟨?_, emissions⟩
      intro pending member
      rcases List.mem_cons.mp ((held_merged _ _ _).mem_iff.mp member) with rfl | member
      · apply merged _ _ rfl patient stored
        exact entries _ ((held_pending stored).mem_iff.mpr (List.mem_cons_self))
      · exact entries pending
          ((held_pending stored).mem_iff.mpr (List.mem_cons_of_mem _ member))
  | missed _ _ => exact ⟨entries, emissions⟩
  | expired _ stored =>
      constructor
      · intro pending member
        exact entries pending
          ((held_pending stored).mem_iff.mpr (List.mem_cons_of_mem _ member))
      · apply emits
        apply emitted
        exact entries _ ((held_pending stored).mem_iff.mpr List.mem_cons_self)
  | flushed =>
      refine ⟨?_, emissions⟩
      intro pending member
      exact entries pending (held_flushed.mem_iff.mp member)
  | drained found =>
      constructor
      · intro pending member
        exact entries pending
          ((held_drained found).mem_iff.mpr (List.mem_cons_of_mem _ member))
      · apply emits
        apply emitted
        exact entries _ ((held_drained found).mem_iff.mpr List.mem_cons_self)

theorem entries_induction (entry : Pending → Prop) (emission : Emission → Prop)
    (passed : ∀ event, emission (.bypass event))
    (opened : ∀ event timer seen, entry (.opened event timer seen))
    (merged : ∀ existing event seen, existing.latest.orderId = event.orderId →
      entry existing → entry (existing.merge event seen))
    (emitted : ∀ pending, entry pending → emission pending.emission)
    {actions : List BufferAction}
    (reached : exec (step windows) {} actions = some buffer) :
    (∀ pending ∈ buffer.held, entry pending) ∧ ∀ one ∈ buffer.emitted, emission one := by
  apply exec_induction (motive := fun _ buffer =>
    (∀ pending ∈ buffer.held, entry pending) ∧ ∀ one ∈ buffer.emitted, emission one) _ _ reached
  · exact ⟨by simp [held], by simp⟩
  · intro actions middle action finish before holds stepped
    refine entries_kept entry emission stepped (fun event _ => passed event)
      (fun event _ _ => opened event) ?_ emitted holds.1 holds.2
    intro event existing _ _ stored fits seen
    exact merged existing event seen (keyed_of_reached before _ _ stored) fits

def members (buffer : CohesionBuffer) : List Event :=
  buffer.held.flatMap Pending.members ++ buffer.emitted.flatMap Emission.members

theorem members_flush {held rest : List Pending} {entry : Pending}
    (emitted : List Emission) (apart : held.Perm (entry :: rest)) :
    (rest.flatMap Pending.members ++
        (emitted ++ [entry.emission]).flatMap Emission.members).Perm
      (held.flatMap Pending.members ++ emitted.flatMap Emission.members) := by
  have moved := apart.flatMap_right Pending.members
  rw [List.flatMap_cons] at moved
  rw [List.flatMap_append, List.flatMap_singleton, ← List.append_assoc]
  refine List.perm_append_comm.trans ?_
  rw [← List.append_assoc]
  exact moved.symm.append_right _

theorem members_step {action : BufferAction} {next : CohesionBuffer}
    (stepped : step windows buffer action = some next) :
    next.members.Perm (buffer.members ++ action.added?.toList) := by
  cases step_cases stepped with
  | bypassed _ =>
      rw [members, emit, List.flatMap_append, List.flatMap_singleton, ← List.append_assoc]
      exact List.Perm.refl _
  | @opened event _ absent =>
      have moved := (held_opened (.opened event buffer.started buffer.emitted.length)
        absent).flatMap_right Pending.members
      rw [List.flatMap_cons] at moved
      exact (moved.append_right _).trans (List.perm_append_singleton event _).symm
  | @merged event existing _ stored =>
      let merged := existing.merge event buffer.emitted.length
      have before := (held_pending stored).flatMap_right Pending.members
      have after := (held_merged buffer event.orderId merged).flatMap_right Pending.members
      rw [List.flatMap_cons] at before after
      have grown : merged.members = existing.members ++ [event] := rfl
      refine (after.append_right _).trans ?_
      rw [grown, List.append_assoc, List.append_assoc, List.singleton_append]
      refine List.perm_middle.trans ?_
      rw [← List.append_assoc]
      exact (List.perm_append_singleton event _).symm.trans
        ((before.symm.append_right _).append_right _)
  | missed _ _ =>
      change (buffer.members).Perm (buffer.members ++ [])
      rw [List.append_nil]
  | expired _ stored =>
      change List.Perm _ (buffer.members ++ [])
      rw [List.append_nil]
      exact members_flush buffer.emitted (held_pending stored)
  | flushed =>
      change List.Perm _ (buffer.members ++ [])
      rw [List.append_nil]
      exact (held_flushed.flatMap_right Pending.members).append_right _
  | drained found =>
      change List.Perm _ (buffer.members ++ [])
      rw [List.append_nil]
      exact members_flush buffer.emitted (held_drained found)

def Flushes (buffer : CohesionBuffer) (entry : Pending) : BufferAction → Prop
  | .expire id => ∃ timer,
      buffer.timers.find? (fun other => decide (other.id = id)) = some timer ∧
        buffer.pending.get? timer.orderId = some entry
  | .drain flush => ∃ rest, buffer.flushes[flush]? = some (entry :: rest)
  | _ => False

def Sends (windows : Windows) (buffer : CohesionBuffer) (action : BufferAction)
    (emission : Emission) : Prop :=
  match action with
  | .add event => Bypasses windows event ∧ emission = .bypass event
  | action => ∃ entry, buffer.Flushes entry action ∧ emission = entry.emission

theorem emitted_step {action : BufferAction} {next : CohesionBuffer}
    (stepped : step windows buffer action = some next) :
    next.emitted = buffer.emitted ∨
      ∃ emission, buffer.Sends windows action emission ∧
        next.emitted = buffer.emitted ++ [emission] := by
  cases step_cases stepped with
  | bypassed urgent => exact Or.inr ⟨_, ⟨urgent, rfl⟩, rfl⟩
  | opened _ _ => exact Or.inl rfl
  | merged _ _ => exact Or.inl rfl
  | missed _ _ => exact Or.inl rfl
  | expired found stored => exact Or.inr ⟨_, ⟨_, ⟨_, found, stored⟩, rfl⟩, rfl⟩
  | flushed => exact Or.inl rfl
  | drained found => exact Or.inr ⟨_, ⟨_, ⟨_, found⟩, rfl⟩, rfl⟩

theorem held_of_flushes {action : BufferAction} {entry : Pending}
    (flushes : buffer.Flushes entry action) : entry ∈ buffer.held := by
  cases action with
  | add event => cases flushes
  | expire id =>
      obtain ⟨timer, _, stored⟩ := flushes
      exact (held_pending stored).mem_iff.mpr List.mem_cons_self
  | flushAll => cases flushes
  | drain flush =>
      obtain ⟨rest, found⟩ := flushes
      exact (held_drained found).mem_iff.mpr List.mem_cons_self

theorem sends_cases {action : BufferAction} {emission : Emission}
    (sends : buffer.Sends windows action emission) :
    (∃ event, action = .add event ∧ emission = .bypass event) ∨
      action.added? = none ∧ ∃ entry ∈ buffer.held, emission = entry.emission := by
  cases action with
  | add event => exact Or.inl ⟨event, rfl, sends.2⟩
  | expire _ | flushAll | drain _ =>
      obtain ⟨entry, flushes, equal⟩ := sends
      exact Or.inr ⟨rfl, entry, held_of_flushes flushes, equal⟩

theorem members_of_reached {actions : List BufferAction}
    (reached : exec (step windows) {} actions = some buffer) :
    buffer.members.Perm (addedEvents actions) := by
  refine exec_induction (motive := fun actions buffer =>
    buffer.members.Perm (addedEvents actions)) ?_ ?_ reached
  · exact List.Perm.refl _
  · intro actions middle action finish _ soFar stepped
    rw [addedEvents_snoc]
    exact (members_step stepped).trans (soFar.append_right _)

theorem seq_of_reached {actions : List BufferAction}
    (reached : exec (step windows) {} actions = some buffer) :
    (∀ entry ∈ buffer.held, ∃ member ∈ entry.members, member.seq = entry.latest.seq) ∧
      ∀ emission ∈ buffer.emitted,
        ∃ member ∈ emission.members, member.seq = emission.event.seq := by
  apply entries_induction
    (fun entry => ∃ member ∈ entry.members, member.seq = entry.latest.seq)
    (fun emission => ∃ member ∈ emission.members, member.seq = emission.event.seq)
    _ _ _ _ reached
  · intro event
    exact ⟨event, List.mem_cons_self, rfl⟩
  · intro event timer seen
    exact ⟨event, List.mem_cons_self, rfl⟩
  · intro existing event seen _ _
    exact ⟨event, List.mem_append_right _ List.mem_cons_self, rfl⟩
  · intro entry member
    exact member

def sampleWindows : Windows := ⟨1 / 20, 1 / 5, 1 / 10⟩

def validated : Event :=
  sampleUpdate 1 (sampleOrder "pending" 10) (sampleOrder "validating" 10)

end CohesionBuffer

end OrderStream
