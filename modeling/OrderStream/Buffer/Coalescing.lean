import OrderStream.Buffer.Cohesion
import OrderStream.NetChange

/-! What a coalesced event keeps of the events it stands for. -/

namespace OrderStream

open Transition

/-- Successive events of one order, as the watcher hands them over: each with its own
diff and each starting where the one before it ended. -/
structure Window (events : List Event) : Prop where
  ownDiff : ∀ event ∈ events, event.diff = computeDiff event.before event.after
  single : ∀ event ∈ events, event.coalescedCount = 1
  chained : events.IsChain fun event next => next.before = event.after

/-- The emitted event tells the net change from the first to the last event. -/
structure TellsNetChange (emitted first last : Event) (count : Nat) : Prop where
  before : emitted.before = first.before
  after : emitted.after = last.after
  count : emitted.coalescedCount = count
  diff : SameEntries emitted.diff (computeDiff first.before last.after)

def coalesce (first last : Event) (count : Nat) : Event :=
  { last with
    diff := mergeDiffs first.diff last.diff
    before := first.before
    coalesced := true
    coalescedCount := count }

def StandsFor (event : Event) (members : List Event) : Prop :=
  ∃ first rest, members = first :: rest ∧
    event = match rest.getLast? with
      | none => first
      | some last => coalesce first last members.length

structure Pending.Sound (entry : Pending) : Prop where
  initial : entry.members.head? = some entry.initial
  count : entry.count = entry.members.length
  latest : StandsFor entry.latest entry.members

theorem Pending.sound_opened (event : Event) (timer seen : Nat) :
    (Pending.opened event timer seen).Sound where
  initial := rfl
  count := rfl
  latest := ⟨event, [], rfl, rfl⟩

theorem Pending.Sound.merge {existing : Pending} (sound : existing.Sound) (event : Event)
    (seen : Nat) : (existing.merge event seen).Sound := by
  obtain ⟨first, rest, members, _⟩ := sound.latest
  have initial : existing.initial = first := by
    have head := sound.initial
    rw [members] at head
    exact (Option.some.inj head).symm
  constructor
  · show (existing.members ++ [event]).head? = some existing.initial
    rw [members, initial]
    rfl
  · show existing.count + 1 = (existing.members ++ [event]).length
    rw [sound.count, List.length_append, List.length_singleton]
  · refine ⟨first, rest ++ [event], ?_, ?_⟩
    · show existing.members ++ [event] = _
      rw [members, List.cons_append]
    · rw [List.getLast?_concat]
      simp [Pending.merge, coalesce, initial, sound.count]

namespace CohesionBuffer

variable {windows : Windows} {actions : List BufferAction} {buffer : CohesionBuffer}

theorem emissions_stand_for
    (reached : exec (step windows) {} actions = some buffer) :
    ∀ emission ∈ buffer.emitted, StandsFor emission.event emission.members := by
  have sound := entries_induction Pending.Sound
    (fun emission => StandsFor emission.event emission.members)
    (fun event => ⟨event, [], rfl, rfl⟩) Pending.sound_opened
    (fun _ event seen _ sound => sound.merge event seen) (fun _ sound => sound.latest) reached
  exact sound.2

theorem emissions_of_one_order
    (reached : exec (step windows) {} actions = some buffer) :
    ∀ emission ∈ buffer.emitted, ∀ member ∈ emission.members,
      member.orderId = emission.event.orderId := by
  have named := entries_induction
    (fun entry => ∀ member ∈ entry.members, member.orderId = entry.latest.orderId)
    (fun emission => ∀ member ∈ emission.members, member.orderId = emission.event.orderId)
    (by simp [Emission.bypass]) (by simp [Pending.opened]) ?_
    (fun _ named => named) reached
  · exact named.2
  · intro existing event seen same named member merged
    rcases List.mem_append.mp merged with earlier | added
    · exact (named member earlier).trans same
    · rw [List.mem_singleton.mp added]
      rfl

end CohesionBuffer

theorem tellsNetChange_coalesce_iff {first last : Event} (count : Nat)
    (firstDiff : first.diff = computeDiff first.before first.after)
    (lastDiff : last.diff = computeDiff last.before last.after) :
    TellsNetChange (coalesce first last count) first last count ↔
      ∀ field, isIgnored field = false →
        Composes first.before first.after last.before last.after field := by
  rw [← mergeDiffs_net_iff, ← firstDiff, ← lastDiff]
  constructor
  · intro tells
    exact tells.diff
  · intro same
    exact ⟨rfl, rfl, rfl, same⟩

theorem Window.tellsNetChange_single {event : Event} (window : Window [event]) :
    TellsNetChange event event event 1 where
  before := rfl
  after := rfl
  count := window.single event List.mem_cons_self
  diff := by
    rw [← window.ownDiff event List.mem_cons_self]
    exact SameEntries.refl _

namespace CohesionBuffer

variable {windows : Windows} {actions : List BufferAction} {buffer : CohesionBuffer}

theorem exec_adds {order : String} (entry : Pending)
    (stored : buffer.pending.get? order = some entry) (rest : List Event)
    (buffered : ∀ event ∈ rest, ¬Bypasses windows event ∧ event.orderId = order) :
    ∃ next merged, exec (step windows) buffer (rest.map .add) = some next ∧
      next.pending.get? order = some merged ∧ merged.members = entry.members ++ rest ∧
      next.timers = buffer.timers ∧ next.emitted = buffer.emitted := by
  induction rest generalizing buffer entry with
  | nil => exact ⟨buffer, entry, rfl, stored, (List.append_nil _).symm, rfl, rfl⟩
  | cons event rest ih =>
      obtain ⟨patient, named⟩ := buffered event List.mem_cons_self
      have added : buffer.add windows event =
          { buffer with
            pending := buffer.pending.set order
              (entry.merge event buffer.emitted.length) } := by
        rw [add, if_neg patient, named, stored]
      have merges : (buffer.add windows event).pending.get? order =
          some (entry.merge event buffer.emitted.length) := by
        rw [added]
        exact PyDict.get?_set_self _ _ _
      obtain ⟨next, merged, reached, found, members, timers, emitted⟩ := ih _ merges
        fun other member => buffered other (List.mem_cons_of_mem _ member)
      refine ⟨next, merged, ?_, found, ?_, ?_, ?_⟩
      · rw [List.map_cons, exec, step, Option.bind_some]
        exact reached
      · rw [members]
        exact List.append_assoc _ _ _
      · rw [timers, added]
      · rw [emitted, added]

theorem window_emitted {first : Event} {rest : List Event}
    (buffered : ∀ event ∈ first :: rest,
      ¬Bypasses windows event ∧ event.orderId = first.orderId) :
    ∃ buffer emission,
      exec (step windows) {} (.add first :: rest.map .add ++ [.expire 0]) = some buffer ∧
        buffer.emitted = [emission] ∧ emission.members = first :: rest := by
  obtain ⟨patient, _⟩ := buffered first List.mem_cons_self
  let opened : CohesionBuffer :=
    { pending := PyDict.set ∅ first.orderId (.opened first 0 0)
      timers := [⟨0, first.orderId, windowFor windows first.intent⟩]
      started := 1 }
  have added : add windows {} first = opened := by
    rw [add, if_neg patient]
    rfl
  have stored : opened.pending.get? first.orderId = some (.opened first 0 0) :=
    PyDict.get?_set_self _ _ _
  obtain ⟨full, merged, reached, found, members, timers, emitted⟩ :=
    exec_adds _ stored rest
      fun other member => buffered other (List.mem_cons_of_mem _ member)
  have expired : step windows full (.expire 0) =
      some (full.expire ⟨0, first.orderId, windowFor windows first.intent⟩) := by
    rw [step, timers]
    rfl
  refine ⟨_, merged.emission, exec_snoc.mpr ⟨full, ?_, expired⟩, ?_, ?_⟩
  · rw [exec, step, Option.bind_some, added]
    exact reached
  · rw [expire]
    simp [found, emit, emitted, opened]
  · rw [Pending.emission, members]
    rfl

/-- An emitted event tells the net change of its window iff it stands for one event, or
merging the diffs of the first and the last event composes every field. -/
theorem tells_net_change_iff
    (reached : exec (step windows) {} actions = some buffer)
    {emission : Emission} (emitted : emission ∈ buffer.emitted)
    (window : Window emission.members) {first last : Event}
    (starts : emission.members.head? = some first)
    (ends : emission.members.getLast? = some last) :
    TellsNetChange emission.event first last emission.members.length ↔
      emission.members.length = 1 ∨
        ∀ field, isIgnored field = false →
          Composes first.before first.after last.before last.after field := by
  obtain ⟨opener, rest, members, stands⟩ := emissions_stand_for reached emission emitted
  rw [members] at window starts ends stands ⊢
  cases starts
  cases found : rest.getLast? with
  | none =>
      rw [List.getLast?_eq_none_iff] at found
      subst found
      cases ends
      rw [stands]
      exact iff_of_true window.tellsNetChange_single (Or.inl rfl)
  | some final =>
      have member : final ∈ rest := List.mem_of_getLast? found
      rw [List.getLast?_cons, found, Option.getD_some] at ends
      cases ends
      rw [found] at stands
      dsimp only at stands
      rw [stands, tellsNetChange_coalesce_iff _ (window.ownDiff first List.mem_cons_self)
        (window.ownDiff last (List.mem_cons_of_mem _ member)), or_iff_right]
      have some := List.length_pos_of_mem member
      rw [List.length_cons]
      omega

def repriced : Event :=
  sampleUpdate 2 (sampleOrder "validating" 10) (sampleOrder "validating" 20)

def shipped : Event :=
  sampleUpdate 3 (sampleOrder "validating" 20) (sampleOrder "shipped" 20)

theorem tells_net_change_iff_of_two :
    ∃ buffer emission,
      exec (step sampleWindows) {} [.add validated, .add repriced, .expire 0] = some buffer ∧
        emission ∈ buffer.emitted ∧ emission.members = [validated, repriced] ∧
        TellsNetChange emission.event validated repriced 2 := by
  have buffered : ∀ event ∈ [validated, repriced],
      ¬Bypasses sampleWindows event ∧ event.orderId = validated.orderId := by
    decide +kernel
  obtain ⟨buffer, emission, reached, emitted, members⟩ := window_emitted buffered
  have member : emission ∈ buffer.emitted := emitted ▸ List.mem_singleton_self emission
  refine ⟨buffer, emission, reached, member, members, ?_⟩
  have window : Window emission.members := by
    rw [members]
    exact ⟨by simp [validated, repriced, sampleUpdate],
      by simp [validated, repriced, sampleUpdate], .cons_cons rfl (.singleton _)⟩
  have net := (tells_net_change_iff reached member window (by rw [members]; rfl)
    (by rw [members]; rfl)).mpr (Or.inr fun field _ => composes_adjacent _ _ _ field)
  rwa [members] at net

/-! The middle one of three updates is the only one that touches the price. -/

theorem window_of_three : Window [validated, repriced, shipped] where
  ownDiff := by
    intro event member
    simp only [List.mem_cons, List.not_mem_nil, or_false] at member
    rcases member with rfl | rfl | rfl <;> rfl
  single := by
    intro event member
    simp only [List.mem_cons, List.not_mem_nil, or_false] at member
    rcases member with rfl | rfl | rfl <;> rfl
  chained := .cons_cons rfl (.cons_cons rfl (.singleton _))

theorem price_change_in_the_middle_is_lost :
    ∃ buffer emission,
      exec (step sampleWindows) {}
          [.add validated, .add repriced, .add shipped, .expire 0] = some buffer ∧
        emission ∈ buffer.emitted ∧
        emission.members = [validated, repriced, shipped] ∧
        Window emission.members ∧
        ¬TellsNetChange emission.event validated shipped 3 := by
  have buffered : ∀ event ∈ [validated, repriced, shipped],
      ¬Bypasses sampleWindows event ∧ event.orderId = validated.orderId := by
    decide +kernel
  obtain ⟨buffer, emission, reached, emitted, members⟩ := window_emitted buffered
  have member : emission ∈ buffer.emitted := emitted ▸ List.mem_singleton_self emission
  refine ⟨buffer, emission, reached, member, members, ?_, ?_⟩
  · rw [members]
    exact window_of_three
  · obtain ⟨first, rest, split, stands⟩ := emissions_stand_for reached emission member
    rw [members] at split stands
    cases split
    rw [stands]
    intro tells
    have composes := (tellsNetChange_coalesce_iff 3 rfl rfl).mp tells "price" rfl
    have linked : (Value.int 10).Same (.int 20) :=
      composes.1.resolve_left (by decide +kernel)
    simp [Value.Same, Value.pyEq_int_iff] at linked

end CohesionBuffer

end OrderStream
