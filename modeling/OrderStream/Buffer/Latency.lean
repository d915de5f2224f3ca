import Mathlib.Algebra.Order.Ring.Rat
import Mathlib.Tactic.Linarith
import OrderStream.Buffer.Cohesion

/-! The cohesion buffer in time: how long an entry may wait for its flush. -/

namespace OrderStream

open Transition

/-- `due` is when each flush task that was started wakes up.  One field is not in the
source: the events of an order's entry, each with the time it came. -/
structure TimedBuffer where
  buffer : CohesionBuffer := {}
  now : Rat := 0
  due : Nat → Rat := fun _ => 0
  arrivals : String → List (Event × Rat) := fun _ => []

inductive TimedAction where
  | wait (duration : Rat)
  | act (action : BufferAction)

namespace TimedBuffer

open CohesionBuffer

/-- What an `add` leaves beside the buffer: the flush task of an entry it opens, and when
the event came. -/
def note (windows : Windows) (timed : TimedBuffer) : BufferAction → TimedBuffer
  | .add event =>
      if Bypasses windows event then timed
      else
        match timed.buffer.pending.get? event.orderId with
        | none =>
            { timed with
              due := Function.update timed.due timed.buffer.started
                (timed.now + windowFor windows event.intent)
              arrivals := Function.update timed.arrivals event.orderId [(event, timed.now)] }
        | some _ =>
            { timed with
              arrivals := Function.update timed.arrivals event.orderId
                (timed.arrivals event.orderId ++ [(event, timed.now)]) }
  | _ => timed

def OnTime (timed : TimedBuffer) : BufferAction → Prop
  | .expire timer => timed.due timer = timed.now
  | _ => True

instance (timed : TimedBuffer) : ∀ action, Decidable (timed.OnTime action)
  | .expire timer => inferInstanceAs (Decidable (timed.due timer = timed.now))
  | .add _ | .flushAll | .drain _ => inferInstanceAs (Decidable True)

/-- No time passes beyond the point at which a flush task is due. -/
def step (windows : Windows) (timed : TimedBuffer) : TimedAction → Option TimedBuffer
  | .wait duration =>
      if 0 ≤ duration ∧ ∀ timer ∈ timed.buffer.timers, timed.now + duration ≤ timed.due timer.id
      then some { timed with now := timed.now + duration }
      else none
  | .act action =>
      if timed.OnTime action then
        (CohesionBuffer.step windows timed.buffer action).map fun buffer =>
          { timed.note windows action with buffer }
      else none

/-- No entry is to be flushed later than the window of any event in it allows. -/
def Timely (windows : Windows) (timed : TimedBuffer) : Prop :=
  ∀ orderId entry, timed.buffer.pending.get? orderId = some entry →
    ∀ arrival ∈ timed.arrivals orderId,
      timed.due entry.timer ≤ arrival.2 + windowFor windows arrival.1.intent

/-- An event that joins an entry has a window that lasts until the entry is flushed. -/
def JoinsInTime (windows : Windows) (timed : TimedBuffer) : TimedAction → Prop
  | .act (.add event) => ¬Bypasses windows event →
      ∀ entry, timed.buffer.pending.get? event.orderId = some entry →
        timed.due entry.timer ≤ timed.now + windowFor windows event.intent
  | _ => True

instance (windows : Windows) (timed : TimedBuffer) : ∀ action,
    Decidable (timed.JoinsInTime windows action)
  | .act (.add event) =>
      inferInstanceAs (Decidable (¬Bypasses windows event →
        ∀ entry ∈ timed.buffer.pending.get? event.orderId,
          timed.due entry.timer ≤ timed.now + windowFor windows event.intent))
  | .act (.expire _) | .act .flushAll | .act (.drain _) | .wait _ =>
      inferInstanceAs (Decidable True)

variable {windows : Windows} {timed next : TimedBuffer}

inductive Step (windows : Windows) (timed : TimedBuffer) : TimedAction → TimedBuffer → Prop where
  | waited {duration : Rat} : Step windows timed (.wait duration)
      { timed with now := timed.now + duration }
  | opened {event : Event} : ¬Bypasses windows event →
      timed.buffer.pending.get? event.orderId = none →
        Step windows timed (.act (.add event))
          { timed with
            due := Function.update timed.due timed.buffer.started
              (timed.now + windowFor windows event.intent)
            arrivals := Function.update timed.arrivals event.orderId [(event, timed.now)]
            buffer := { timed.buffer with
              pending := timed.buffer.pending.set event.orderId
                (.opened event timed.buffer.started timed.buffer.emitted.length)
              timers := timed.buffer.timers ++
                [⟨timed.buffer.started, event.orderId, windowFor windows event.intent⟩]
              started := timed.buffer.started + 1 } }
  | merged {event : Event} {existing : Pending} : ¬Bypasses windows event →
      timed.buffer.pending.get? event.orderId = some existing →
        Step windows timed (.act (.add event))
          { timed with
            arrivals := Function.update timed.arrivals event.orderId
              (timed.arrivals event.orderId ++ [(event, timed.now)])
            buffer := { timed.buffer with
              pending := timed.buffer.pending.set event.orderId
                (existing.merge event timed.buffer.emitted.length) } }
  | other {action : BufferAction} {buffer : CohesionBuffer} :
      (∀ event, action = .add event → Bypasses windows event) →
        (∀ orderId entry, buffer.pending.get? orderId = some entry →
          timed.buffer.pending.get? orderId = some entry) →
          buffer.started = timed.buffer.started →
            Step windows timed (.act action) { timed with buffer }

theorem step_cases {action : TimedAction} (stepped : step windows timed action = some next) :
    Step windows timed action next := by
  cases action with
  | wait duration =>
      simp only [step] at stepped
      split at stepped
      · cases stepped
        exact .waited
      · cases stepped
  | act action =>
      simp only [step] at stepped
      split at stepped
      · obtain ⟨buffer, moved, rfl⟩ := Option.map_eq_some_iff.mp stepped
        cases CohesionBuffer.step_cases moved with
        | @bypassed event bypasses =>
            simp only [note, if_pos bypasses]
            refine .other ?_ (fun _ _ stored => stored) rfl
            intro event same
            cases same
            exact bypasses
        | opened buffered absent =>
            simp only [note, if_neg buffered, absent]
            exact .opened buffered absent
        | merged buffered stored =>
            simp only [note, if_neg buffered, stored]
            exact .merged buffered stored
        | missed _ _ =>
            exact .other (fun _ contra => by cases contra) (fun _ _ stored => stored) rfl
        | expired _ _ =>
            refine .other (fun _ contra => by cases contra) ?_ rfl
            intro orderId entry stored
            simp only [emit, PyDict.get?_erase] at stored
            split at stored
            · cases stored
            · exact stored
        | flushed =>
            refine .other (fun _ contra => by cases contra) ?_ rfl
            intro orderId entry stored
            cases stored
        | drained _ =>
            exact .other (fun _ contra => by cases contra) (fun _ _ stored => stored) rfl
      · cases stepped

structure Tracked (timed : TimedBuffer) : Prop where
  started : ∀ orderId entry, timed.buffer.pending.get? orderId = some entry →
    entry.timer < timed.buffer.started
  arrived : ∀ orderId entry, timed.buffer.pending.get? orderId = some entry →
    (timed.arrivals orderId).map Prod.fst = entry.members

theorem tracked_init : Tracked {} where
  started orderId entry stored := by cases stored
  arrived orderId entry stored := by cases stored

theorem Tracked.step {action : TimedAction} (tracked : timed.Tracked)
    (stepped : step windows timed action = some next) : next.Tracked := by
  cases step_cases stepped with
  | waited => exact ⟨tracked.started, tracked.arrived⟩
  | opened _ _ =>
      constructor
      · intro orderId entry stored
        rw [PyDict.get?_set] at stored
        split at stored
        · cases stored
          exact Nat.lt_succ_self _
        · exact Nat.lt_succ_of_lt (tracked.started orderId entry stored)
      · intro orderId entry stored
        rw [PyDict.get?_set] at stored
        dsimp only
        split at stored
        · rename_i same
          cases stored
          rw [same, Function.update_self]
          rfl
        · rename_i other
          rw [Function.update_of_ne other]
          exact tracked.arrived orderId entry stored
  | @merged event existing _ found =>
      constructor
      · intro orderId entry stored
        rw [PyDict.get?_set] at stored
        split at stored
        · cases stored
          exact tracked.started event.orderId existing found
        · exact tracked.started orderId entry stored
      · intro orderId entry stored
        rw [PyDict.get?_set] at stored
        dsimp only
        split at stored
        · rename_i same
          cases stored
          rw [same, Function.update_self, List.map_append,
            tracked.arrived event.orderId existing found]
          rfl
        · rename_i other
          rw [Function.update_of_ne other]
          exact tracked.arrived orderId entry stored
  | other _ kept started =>
      constructor
      · intro orderId entry stored
        rw [started]
        exact tracked.started orderId entry (kept orderId entry stored)
      · intro orderId entry stored
        exact tracked.arrived orderId entry (kept orderId entry stored)

theorem tracked_of_reached {actions : List TimedAction}
    (reached : exec (step windows) {} actions = some timed) : timed.Tracked :=
  exec_invariant tracked_init (fun _ _ _ tracked stepped => tracked.step stepped) reached

theorem Timely.opened (timely : timed.Timely windows) (tracked : timed.Tracked) (event : Event)
    (seen : Nat) (timers : List Timer) :
    Timely windows
      { timed with
        due := Function.update timed.due timed.buffer.started
          (timed.now + windowFor windows event.intent)
        arrivals := Function.update timed.arrivals event.orderId [(event, timed.now)]
        buffer := { timed.buffer with
          pending := timed.buffer.pending.set event.orderId
            (.opened event timed.buffer.started seen)
          timers
          started := timed.buffer.started + 1 } } := by
  intro orderId entry stored arrival came
  rw [PyDict.get?_set] at stored
  dsimp only at came ⊢
  split at stored
  · rename_i same
    cases stored
    rw [same, Function.update_self, List.mem_singleton] at came
    rw [came]
    exact (Function.update_self _ _ _).le
  · rename_i other
    rw [Function.update_of_ne other] at came
    have earlier : entry.timer ≠ timed.buffer.started :=
      (tracked.started orderId entry stored).ne
    rw [Function.update_of_ne earlier]
    exact timely orderId entry stored arrival came

/-- An entry that an event joins is flushed in time iff it is for that event. -/
theorem timely_merged_iff (timely : timed.Timely windows) {event : Event} {existing : Pending}
    (stored : timed.buffer.pending.get? event.orderId = some existing) (seen : Nat) :
    Timely windows
        { timed with
          arrivals := Function.update timed.arrivals event.orderId
            (timed.arrivals event.orderId ++ [(event, timed.now)])
          buffer := { timed.buffer with
            pending := timed.buffer.pending.set event.orderId (existing.merge event seen) } } ↔
      timed.due existing.timer ≤ timed.now + windowFor windows event.intent := by
  constructor
  · intro still
    refine still event.orderId (existing.merge event seen) (PyDict.get?_set_self _ _ _)
      (event, timed.now) ?_
    dsimp only
    rw [Function.update_self]
    exact List.mem_append_right _ List.mem_cons_self
  · intro inTime orderId entry found arrival came
    rw [PyDict.get?_set] at found
    dsimp only at came ⊢
    split at found
    · rename_i same
      cases found
      rw [same, Function.update_self] at came
      rcases List.mem_append.mp came with earlier | last
      · exact timely event.orderId existing stored arrival earlier
      · rw [List.mem_singleton.mp last]
        exact inTime
    · rename_i other
      rw [Function.update_of_ne other] at came
      exact timely orderId entry found arrival came

theorem joinsInTime_iff {event : Event} {existing : Pending} (buffered : ¬Bypasses windows event)
    (stored : timed.buffer.pending.get? event.orderId = some existing) :
    timed.JoinsInTime windows (.act (.add event)) ↔
      timed.due existing.timer ≤ timed.now + windowFor windows event.intent := by
  constructor
  · intro inTime
    exact inTime buffered existing stored
  · intro inTime _ entry found
    rw [stored] at found
    cases found
    exact inTime

theorem timely_step_iff {action : TimedAction} (tracked : timed.Tracked)
    (timely : timed.Timely windows) (stepped : step windows timed action = some next) :
    next.Timely windows ↔ timed.JoinsInTime windows action := by
  cases step_cases stepped with
  | waited => exact iff_of_true timely trivial
  | @opened event _ absent =>
      refine iff_of_true (timely.opened tracked event _ _) ?_
      intro _ entry stored
      rw [absent] at stored
      cases stored
  | merged buffered stored =>
      rw [joinsInTime_iff buffered stored]
      exact timely_merged_iff timely stored _
  | @other action buffer bypasses kept _ =>
      refine iff_of_true ?_ ?_
      · intro orderId entry stored
        exact timely orderId entry (kept orderId entry stored)
      · cases action with
        | add event =>
            intro buffered
            exact absurd (bypasses event rfl) buffered
        | expire | flushAll | drain => trivial

/-- Every entry is flushed within the windows of all its events iff none joined with a
window too short for what was left of the entry's: the first event alone sets when the
entry is flushed. -/
theorem flushed_within_windows_iff {actions : List TimedAction}
    (reached : exec (step windows) {} actions = some timed) :
    (∀ orderId entry, timed.buffer.pending.get? orderId = some entry →
      (timed.arrivals orderId).map Prod.fst = entry.members) ∧
    ((∀ before after state, actions = before ++ after →
        exec (step windows) {} before = some state → state.Timely windows) ↔
      Along (step windows) (fun _ => JoinsInTime windows) {} actions) := by
  refine ⟨(tracked_of_reached reached).arrived, ?_⟩
  have begins : Timely windows {} := fun orderId entry stored => by cases stored
  refine always_iff_along (fun timed => timed.Tracked ∧ timed.Timely windows)
    ⟨tracked_init, begins⟩ begins ?_ reached
  rintro state action finish ⟨tracked, timely⟩ stepped
  have still := timely_step_iff tracked timely stepped
  exact ⟨still, fun inTime => ⟨tracked.step stepped, still.mpr inTime⟩⟩

def repriced (seq : Int) : Event :=
  sampleUpdate seq (sampleOrder "pending" 10) (sampleOrder "pending" 11)

def statusFirst : List TimedAction :=
  [.act (.add validated), .wait (1 / 50), .act (.add (repriced 2)), .wait (3 / 100),
    .act (.expire 0)]

theorem flushed_within_windows_of_status_first : ∃ timed,
    exec (step sampleWindows) {} statusFirst = some timed ∧
      ∀ before after state, statusFirst = before ++ after →
        exec (step sampleWindows) {} before = some state → state.Timely sampleWindows := by
  have ran : (exec (step sampleWindows) {} statusFirst).isSome = true := by decide +kernel
  obtain ⟨timed, reached⟩ := Option.isSome_iff_exists.mp ran
  have joined : Along (step sampleWindows) (fun _ => JoinsInTime sampleWindows) {} statusFirst := by
    decide +kernel
  exact ⟨timed, reached, (flushed_within_windows_iff reached).2.mpr joined⟩

theorem status_change_held_for_price_window : ∃ timed,
    exec (step sampleWindows) {} [.act (.add (repriced 1)), .act (.add validated)] =
        some timed ∧
      ¬timed.Timely sampleWindows := by
  have ran : (exec (step sampleWindows) {}
      [.act (.add (repriced 1)), .act (.add validated)]).map (fun timed =>
        (timed.buffer.pending.get? "1").map fun entry =>
          decide (∃ arrival ∈ timed.arrivals "1", ¬timed.due entry.timer ≤
            arrival.2 + windowFor sampleWindows arrival.1.intent)) = some (some true) := by
    decide +kernel
  obtain ⟨timed, reached, late⟩ := Option.map_eq_some_iff.mp ran
  obtain ⟨entry, stored, late⟩ := Option.map_eq_some_iff.mp late
  obtain ⟨arrival, came, overdue⟩ := of_decide_eq_true late
  exact ⟨timed, reached, fun timely => overdue (timely "1" entry stored arrival came)⟩

end TimedBuffer

end OrderStream
