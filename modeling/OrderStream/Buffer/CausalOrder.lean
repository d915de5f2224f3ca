import OrderStream.Buffer.Cohesion

/-! The order in which the events of one order are emitted. -/

namespace OrderStream

open Transition

/-- Of two emitted events of one order the earlier has the smaller seq. -/
def InSeqOrder (emitted : List Emission) : Prop :=
  emitted.Pairwise fun earlier later =>
    earlier.event.orderId = later.event.orderId → earlier.event.seq < later.event.seq

namespace CohesionBuffer

/-- An event of the urgent lane, or a later entry of the order, emitted since the
last event of this entry came. -/
def Overtakes (entry : Pending) (index : Nat) (emission : Emission) : Prop :=
  emission.event.orderId = entry.latest.orderId ∧ entry.seen ≤ index ∧
    ∀ timer, emission.entry = some timer → entry.timer < timer

def Overtaken (buffer : CohesionBuffer) (entry : Pending) : Prop :=
  ∃ index emission, buffer.emitted[index]? = some emission ∧ Overtakes entry index emission

/-- No entry is flushed after it was overtaken. -/
def FlushedInTurn (buffer : CohesionBuffer) (action : BufferAction) : Prop :=
  ∀ entry, buffer.Flushes entry action → ¬buffer.Overtaken entry

def Placed (emitted : List Emission) (entry : Pending) : Prop :=
  ∀ index emission, emitted[index]? = some emission →
    emission.event.orderId = entry.latest.orderId →
      (Overtakes entry index emission → entry.latest.seq < emission.event.seq) ∧
        (¬Overtakes entry index emission → emission.event.seq < entry.latest.seq)

/-- How seqs, flush tasks and emissions stand to one another, when `added` was added. -/
structure Lined (added : List Event) (buffer : CohesionBuffer) : Prop where
  held : ∀ entry ∈ buffer.held, ∃ event ∈ added, entry.latest.seq = event.seq
  emitted : ∀ emission ∈ buffer.emitted, ∃ event ∈ added, emission.event.seq = event.seq
  seen : ∀ entry ∈ buffer.held, entry.seen ≤ buffer.emitted.length
  started : ∀ entry ∈ buffer.held, entry.timer < buffer.started
  distinct : (buffer.held.map Pending.timer).Nodup
  older : ∀ entry ∈ buffer.held, ∀ other ∈ buffer.held,
    entry.latest.orderId = other.latest.orderId → entry.timer < other.timer →
      entry.latest.seq < other.latest.seq
  newest : ∀ key entry, buffer.pending.get? key = some entry →
    ∀ other ∈ buffer.held, other.latest.orderId = key → other.timer ≤ entry.timer
  placed : ∀ entry ∈ buffer.held, Placed buffer.emitted entry

variable {windows : Windows} {buffer next : CohesionBuffer} {added : List Event}

theorem lined_init : Lined [] {} where
  held := by simp [CohesionBuffer.held]
  emitted := by simp
  seen := by simp [CohesionBuffer.held]
  started := by simp [CohesionBuffer.held]
  distinct := by simp [CohesionBuffer.held]
  older := by simp [CohesionBuffer.held]
  newest := by simp [CohesionBuffer.held]
  placed := by simp [CohesionBuffer.held]

theorem getElem?_snoc {list : List α} {last value : α} {index : Nat}
    (found : (list ++ [last])[index]? = some value) :
    list[index]? = some value ∨ index = list.length ∧ value = last := by
  rcases Nat.lt_or_ge index list.length with inside | outside
  · rw [List.getElem?_append_left inside] at found
    exact Or.inl found
  · rw [List.getElem?_append_right outside, List.getElem?_singleton] at found
    split at found
    · cases found
      exact Or.inr ⟨by omega, rfl⟩
    · cases found

theorem Placed.snoc {emitted : List Emission} {entry : Pending} (placed : Placed emitted entry)
    {last : Emission}
    (behind : last.event.orderId = entry.latest.orderId →
      (Overtakes entry emitted.length last → entry.latest.seq < last.event.seq) ∧
        (¬Overtakes entry emitted.length last → last.event.seq < entry.latest.seq)) :
    Placed (emitted ++ [last]) entry := by
  intro index emission found named
  rcases getElem?_snoc found with earlier | ⟨rfl, rfl⟩
  · exact placed index emission earlier named
  · exact behind named

def Newer (added : List Event) (event : Event) : Prop :=
  ∀ earlier ∈ added, earlier.seq < event.seq

theorem Lined.held_lt (lined : Lined added buffer) {event : Event} (newer : Newer added event)
    {entry : Pending} (member : entry ∈ buffer.held) : entry.latest.seq < event.seq := by
  obtain ⟨earlier, known, same⟩ := lined.held entry member
  rw [same]
  exact newer earlier known

theorem Lined.emitted_lt (lined : Lined added buffer) {event : Event}
    (newer : Newer added event) {emission : Emission} (member : emission ∈ buffer.emitted) :
    emission.event.seq < event.seq := by
  obtain ⟨earlier, known, same⟩ := lined.emitted emission member
  rw [same]
  exact newer earlier known

/-- An event of the urgent lane overtakes every entry of its order. -/
theorem Lined.bypass (lined : Lined added buffer) {event : Event}
    (newer : Newer added event) : Lined (added ++ [event]) (buffer.emit (.bypass event)) where
  held := by
    intro entry member
    obtain ⟨earlier, known, same⟩ := lined.held entry member
    exact ⟨earlier, List.mem_append_left _ known, same⟩
  emitted := by
    intro emission member
    rcases List.mem_append.mp member with before | last
    · obtain ⟨earlier, known, same⟩ := lined.emitted emission before
      exact ⟨earlier, List.mem_append_left _ known, same⟩
    · rw [List.mem_singleton.mp last]
      exact ⟨event, by simp, rfl⟩
  seen := by
    intro entry member
    have bound := lined.seen entry member
    simp only [emit, List.length_append]
    omega
  started := lined.started
  distinct := lined.distinct
  older := lined.older
  newest := lined.newest
  placed := by
    intro entry member
    apply (lined.placed entry member).snoc
    intro named
    constructor
    · intro _
      exact lined.held_lt newer member
    · intro missed
      refine absurd ⟨named, lined.seen entry member, ?_⟩ missed
      intro timer equal
      cases equal

theorem Lined.placed_fresh (lined : Lined added buffer) {event : Event}
    (newer : Newer added event) {fresh : Pending} (latest : fresh.latest.seq = event.seq)
    (seen : fresh.seen = buffer.emitted.length) : Placed buffer.emitted fresh := by
  intro index emission found _
  have inside := (List.getElem?_eq_some_iff.mp found).1
  constructor
  · intro overtakes
    have outside := overtakes.2.1
    omega
  · intro _
    rw [latest]
    exact lined.emitted_lt newer (List.mem_of_getElem? found)

section

variable {event : Event} {fresh : Pending} {others : List Pending}

theorem Lined.renew (lined : Lined added buffer) (newer : Newer added event)
    (latest : fresh.latest.seq = event.seq) (seen : fresh.seen = buffer.emitted.length)
    (kept : ∀ other ∈ others, other ∈ buffer.held)
    (timers : (others.map Pending.timer).Nodup)
    (started : fresh.timer < next.started) (grows : buffer.started ≤ next.started)
    (distinct : ∀ other ∈ others, other.timer ≠ fresh.timer)
    (last : ∀ other ∈ others, other.latest.orderId = fresh.latest.orderId →
      other.timer < fresh.timer)
    (held : next.held.Perm (fresh :: others)) (emitted : next.emitted = buffer.emitted)
    (pending : next.pending = buffer.pending.set fresh.latest.orderId fresh) :
    Lined (added ++ [event]) next := by
  have members (entry : Pending) (member : entry ∈ next.held) :
      entry = fresh ∨ entry ∈ others := List.mem_cons.mp (held.mem_iff.mp member)
  constructor
  · intro entry member
    rcases members entry member with rfl | other
    · exact ⟨event, by simp, latest⟩
    · obtain ⟨earlier, known, same⟩ := lined.held entry (kept entry other)
      exact ⟨earlier, List.mem_append_left _ known, same⟩
  · intro emission member
    rw [emitted] at member
    obtain ⟨earlier, known, same⟩ := lined.emitted emission member
    exact ⟨earlier, List.mem_append_left _ known, same⟩
  · intro entry member
    rw [emitted]
    rcases members entry member with rfl | other
    · exact Nat.le_of_eq seen
    · exact lined.seen entry (kept entry other)
  · intro entry member
    rcases members entry member with rfl | other
    · exact started
    · exact Nat.lt_of_lt_of_le (lined.started entry (kept entry other)) grows
  · apply ((held.map Pending.timer).nodup_iff).mpr
    rw [List.map_cons, List.nodup_cons]
    refine ⟨?_, timers⟩
    intro repeated
    obtain ⟨other, member, same⟩ := List.mem_map.mp repeated
    exact distinct other member same
  · intro entry member other otherMember named before
    rcases members entry member with rfl | entryOld
    · rcases members other otherMember with rfl | otherOld
      · omega
      · have behind := last other otherOld named.symm
        omega
    · rcases members other otherMember with rfl | otherOld
      · rw [latest]
        exact lined.held_lt newer (kept entry entryOld)
      · exact lined.older entry (kept entry entryOld) other (kept other otherOld) named before
  · intro key entry stored other otherMember named
    rw [pending, PyDict.get?_set] at stored
    split at stored
    · rename_i same
      cases stored
      rcases members other otherMember with rfl | otherOld
      · exact Nat.le_refl _
      · exact Nat.le_of_lt (last other otherOld (named.trans same))
    · rename_i differ
      rcases members other otherMember with rfl | otherOld
      · exact absurd named.symm differ
      · exact lined.newest key entry stored other (kept other otherOld) named
  · intro entry member
    rw [emitted]
    rcases members entry member with rfl | other
    · exact lined.placed_fresh newer latest seen
    · exact lined.placed entry (kept entry other)

end

theorem Lined.flush (lined : Lined added buffer) {entry : Pending}
    (held : buffer.held.Perm (entry :: next.held)) (started : next.started = buffer.started)
    (emitted : next.emitted = buffer.emitted ++ [entry.emission])
    (pending : ∀ key stored, next.pending.get? key = some stored →
      buffer.pending.get? key = some stored) :
    Lined added next := by
  have kept (other : Pending) (member : other ∈ next.held) : other ∈ buffer.held :=
    held.mem_iff.mpr (List.mem_cons_of_mem _ member)
  have own : entry ∈ buffer.held := held.mem_iff.mpr List.mem_cons_self
  have timers := (held.map Pending.timer).nodup_iff.mp lined.distinct
  rw [List.map_cons, List.nodup_cons] at timers
  constructor
  · intro other member
    exact lined.held other (kept other member)
  · intro emission member
    rw [emitted] at member
    rcases List.mem_append.mp member with before | last
    · exact lined.emitted emission before
    · rw [List.mem_singleton.mp last]
      exact lined.held entry own
  · intro other member
    have bound := lined.seen other (kept other member)
    rw [emitted, List.length_append]
    omega
  · intro other member
    rw [started]
    exact lined.started other (kept other member)
  · exact timers.2
  · intro first firstMember second secondMember
    exact lined.older first (kept first firstMember) second (kept second secondMember)
  · intro key stored found other member
    exact lined.newest key stored (pending key stored found) other (kept other member)
  · intro other member
    rw [emitted]
    apply (lined.placed other (kept other member)).snoc
    intro named
    have differ : other.timer ≠ entry.timer := fun same =>
      timers.1 (List.mem_map.mpr ⟨other, member, same⟩)
    constructor
    · rintro ⟨_, _, newer⟩
      exact lined.older other (kept other member) entry own named.symm (newer _ rfl)
    · intro missed
      have older : entry.timer < other.timer := by
        by_contra newer
        refine missed ⟨named, lined.seen other (kept other member), ?_⟩
        intro timer same
        cases same
        omega
      exact lined.older entry own other (kept other member) named older

theorem Lined.moved (lined : Lined added buffer) {flushes : List (List Pending)}
    (held : ((∅ : PyDict String Pending).values ++ flushes.flatten).Perm buffer.held) :
    Lined added { buffer with pending := ∅, flushes } where
  held entry member := lined.held entry (held.mem_iff.mp member)
  emitted := lined.emitted
  seen entry member := lined.seen entry (held.mem_iff.mp member)
  started entry member := lined.started entry (held.mem_iff.mp member)
  distinct := (held.map Pending.timer).nodup_iff.mpr lined.distinct
  older entry member other otherMember :=
    lined.older entry (held.mem_iff.mp member) other (held.mem_iff.mp otherMember)
  newest := by
    intro key entry stored
    cases stored
  placed entry member := lined.placed entry (held.mem_iff.mp member)

theorem Lined.step {action : BufferAction} (lined : Lined added buffer)
    (keyed : buffer.Keyed) (newer : ∀ event, action.added? = some event → Newer added event)
    (stepped : step windows buffer action = some next) :
    Lined (added ++ action.added?.toList) next := by
  cases step_cases stepped with
  | bypassed _ => exact lined.bypass (newer _ rfl)
  | opened _ absent =>
      have older (other : Pending) (member : other ∈ buffer.held) :
          other.timer < buffer.started := lined.started other member
      exact lined.renew (newer _ rfl) rfl rfl (fun _ member => member) lined.distinct
        (Nat.lt_succ_self _) (Nat.le_succ _)
        (fun other member => Nat.ne_of_lt (older other member))
        (fun other member _ => older other member) (held_opened _ absent) rfl rfl
  | @merged event existing _ stored =>
      have named := keyed _ _ stored
      have apart := held_pending stored
      have own : existing ∈ buffer.held := apart.mem_iff.mpr List.mem_cons_self
      have kept (other : Pending) (member : other ∈ buffer.beside event.orderId) :
          other ∈ buffer.held := apart.mem_iff.mpr (List.mem_cons_of_mem _ member)
      have timers := (apart.map Pending.timer).nodup_iff.mp lined.distinct
      rw [List.map_cons, List.nodup_cons] at timers
      have distinct (other : Pending) (member : other ∈ buffer.beside event.orderId) :
          other.timer ≠ existing.timer := fun same =>
        timers.1 (List.mem_map.mpr ⟨other, member, same⟩)
      let merged := existing.merge event buffer.emitted.length
      have started : merged.timer < buffer.started := lined.started existing own
      refine lined.renew (newer _ rfl) rfl rfl kept timers.2 started
        (Nat.le_refl _) distinct ?_ (held_merged _ _ merged) rfl rfl
      intro other member same
      have bound := lined.newest _ _ stored other (kept other member) same
      exact Nat.lt_of_le_of_ne bound (distinct other member)
  | missed _ _ =>
      change Lined (added ++ []) _
      rw [List.append_nil]
      exact ⟨lined.held, lined.emitted, lined.seen, lined.started, lined.distinct,
        lined.older, lined.newest, lined.placed⟩
  | expired _ stored =>
      change Lined (added ++ []) _
      rw [List.append_nil]
      refine lined.flush (held_pending stored) rfl rfl ?_
      intro key other found
      simp only [emit, PyDict.get?_erase] at found
      split at found
      · cases found
      · exact found
  | flushed =>
      change Lined (added ++ []) _
      rw [List.append_nil]
      exact lined.moved held_flushed
  | drained found =>
      change Lined (added ++ []) _
      rw [List.append_nil]
      exact lined.flush (held_drained found) rfl rfl fun _ _ stored => stored

theorem lined_of_reached {actions : List BufferAction}
    (increasing : (addedEvents actions).Pairwise fun earlier later => earlier.seq < later.seq)
    (reached : exec (CohesionBuffer.step windows) {} actions = some buffer) :
    Lined (addedEvents actions) buffer := by
  revert increasing
  refine exec_induction (motive := fun actions buffer =>
    ((addedEvents actions).Pairwise fun earlier later => earlier.seq < later.seq) →
      Lined (addedEvents actions) buffer) ?_ ?_ reached
  · intro _
    exact lined_init
  · intro actions middle action finish before lined stepped increasing
    rw [addedEvents_snoc, List.pairwise_append] at increasing
    rw [addedEvents_snoc]
    refine (lined increasing.1).step (keyed_of_reached before) ?_ stepped
    intro event added earlier known
    exact increasing.2.2 earlier known event (by simp [added])

theorem inSeqOrder_snoc {emitted : List Emission} {last : Emission} :
    InSeqOrder (emitted ++ [last]) ↔ InSeqOrder emitted ∧
      ∀ earlier ∈ emitted, earlier.event.orderId = last.event.orderId →
        earlier.event.seq < last.event.seq := by
  rw [InSeqOrder, List.pairwise_append]
  simp [InSeqOrder]

/-- Emitting an entry keeps the order iff nothing overtook it. -/
theorem inSeqOrder_flush (lined : Lined added buffer) {entry : Pending}
    (member : entry ∈ buffer.held) :
    InSeqOrder (buffer.emitted ++ [entry.emission]) ↔
      InSeqOrder buffer.emitted ∧ ¬buffer.Overtaken entry := by
  rw [inSeqOrder_snoc]
  apply and_congr_right
  intro _
  constructor
  · rintro sorted ⟨index, emission, found, overtakes⟩
    have before := sorted emission (List.mem_of_getElem? found) overtakes.1
    have after := (lined.placed entry member index emission found overtakes.1).1 overtakes
    have crossed := Int.lt_trans before after
    exact Int.lt_irrefl _ crossed
  · intro free emission known named
    obtain ⟨index, found⟩ := List.getElem?_of_mem known
    apply (lined.placed entry member index emission found named).2
    intro overtakes
    exact free ⟨index, emission, found, overtakes⟩

theorem flushedInTurn_add (buffer : CohesionBuffer) (event : Event) :
    buffer.FlushedInTurn (.add event) := by
  intro entry flushes
  cases flushes

theorem inSeqOrder_step {action : BufferAction} (lined : Lined added buffer)
    (newer : ∀ event, action.added? = some event → Newer added event)
    (stepped : CohesionBuffer.step windows buffer action = some next) :
    InSeqOrder next.emitted ↔ InSeqOrder buffer.emitted ∧ buffer.FlushedInTurn action := by
  cases step_cases stepped with
  | bypassed _ =>
      rw [and_iff_left (flushedInTurn_add _ _)]
      refine inSeqOrder_snoc.trans (and_iff_left ?_)
      intro emission known _
      exact lined.emitted_lt (newer _ rfl) known
  | opened _ _ => exact (and_iff_left (flushedInTurn_add _ _)).symm
  | merged _ _ => exact (and_iff_left (flushedInTurn_add _ _)).symm
  | @missed id timer found absent =>
      refine (and_iff_left ?_).symm
      rintro entry ⟨other, sleeping, stored⟩
      cases found.symm.trans sleeping
      cases absent.symm.trans stored
  | @expired id timer entry found stored =>
      have own : entry ∈ buffer.held := (held_pending stored).mem_iff.mpr List.mem_cons_self
      refine (inSeqOrder_flush lined own).trans (and_congr_right fun _ => ?_)
      constructor
      · rintro free other ⟨timer, sleeping, present⟩
        cases found.symm.trans sleeping
        cases stored.symm.trans present
        exact free
      · intro inTurn
        exact inTurn entry ⟨timer, found, stored⟩
  | flushed =>
      refine (and_iff_left ?_).symm
      intro entry flushes
      cases flushes
  | @drained flush entry rest found =>
      have own : entry ∈ buffer.held := (held_drained found).mem_iff.mpr List.mem_cons_self
      refine (inSeqOrder_flush lined own).trans (and_congr_right fun _ => ?_)
      constructor
      · rintro free other ⟨others, present⟩
        cases found.symm.trans present
        exact free
      · intro inTurn
        exact inTurn entry ⟨rest, found⟩

/-- Adding events with increasing seqs, the events of each order are emitted with
increasing seqs iff no entry is flushed after it was overtaken. -/
theorem emitted_in_seq_order_iff {actions : List BufferAction}
    (increasing : (addedEvents actions).Pairwise fun earlier later => earlier.seq < later.seq)
    (reached : exec (CohesionBuffer.step windows) {} actions = some buffer) :
    InSeqOrder buffer.emitted ↔
      Along (CohesionBuffer.step windows) (fun _ => FlushedInTurn) {} actions := by
  revert increasing
  refine exec_induction (motive := fun actions buffer =>
    ((addedEvents actions).Pairwise fun earlier later => earlier.seq < later.seq) →
      (InSeqOrder buffer.emitted ↔
        Along (CohesionBuffer.step windows) (fun _ => FlushedInTurn) {} actions)) ?_ ?_ reached
  · intro _
    exact iff_of_true List.Pairwise.nil along_nil
  · intro actions middle action finish before soFar stepped increasing
    rw [addedEvents_snoc, List.pairwise_append] at increasing
    have newer (event : Event) (adds : action.added? = some event) :
        Newer (addedEvents actions) event := fun earlier known =>
      increasing.2.2 earlier known event (by simp [adds])
    rw [inSeqOrder_step (lined_of_reached increasing.1 before) newer stepped,
      soFar increasing.1, along_snoc]
    apply and_congr_right
    intro _
    constructor
    · intro inTurn state same
      cases before.symm.trans same
      exact inTurn
    · intro inTurn
      exact inTurn middle before

theorem inSeqOrder_iff_map {emitted : List Emission} :
    InSeqOrder emitted ↔
      (emitted.map fun emission => (emission.event.orderId, emission.event.seq)).Pairwise
        fun earlier later => earlier.1 = later.1 → earlier.2 < later.2 := by
  rw [List.pairwise_map]
  exact Iff.rfl

def cancelled : Event :=
  sampleUpdate 2 (sampleOrder "validating" 10) (sampleOrder "cancelled" 10)

theorem emitted_in_seq_order_after_flush :
    ∃ buffer, exec (CohesionBuffer.step sampleWindows) {}
        [.add validated, .expire 0, .add cancelled] = some buffer ∧
      buffer.emitted.length = 2 ∧ InSeqOrder buffer.emitted := by
  have ran : (exec (CohesionBuffer.step sampleWindows) {}
      [.add validated, .expire 0, .add cancelled]).map
        (fun buffer => buffer.emitted.length) = some 2 := by
    decide +kernel
  obtain ⟨buffer, reached, two⟩ := Option.map_eq_some_iff.mp ran
  refine ⟨buffer, reached, two, (emitted_in_seq_order_iff (by decide +kernel) reached).mpr ?_⟩
  rw [along_cons]
  refine ⟨flushedInTurn_add _ _, ?_⟩
  intro opened added
  rw [along_cons]
  constructor
  · rintro entry _ ⟨index, emission, found, _⟩
    have quiet : opened.emitted = [] := by
      cases added
      apply List.eq_nil_of_length_eq_zero
      decide +kernel
    rw [quiet] at found
    cases found
  · intro flushed _
    rw [along_cons]
    exact ⟨flushedInTurn_add _ _, fun _ _ => along_nil⟩

theorem status_change_emitted_after_cancellation :
    ∃ buffer, exec (CohesionBuffer.step sampleWindows) {}
        [.add validated, .add cancelled, .expire 0] = some buffer ∧
      validated.seq < cancelled.seq ∧ ¬InSeqOrder buffer.emitted := by
  have ran : (exec (CohesionBuffer.step sampleWindows) {}
      [.add validated, .add cancelled, .expire 0]).map
        (fun buffer => buffer.emitted.map fun emission =>
          (emission.event.orderId, emission.event.seq)) = some [("1", 2), ("1", 1)] := by
    decide +kernel
  obtain ⟨buffer, reached, emitted⟩ := Option.map_eq_some_iff.mp ran
  refine ⟨buffer, reached, by decide +kernel, ?_⟩
  rw [inSeqOrder_iff_map, emitted]
  decide

end CohesionBuffer

end OrderStream
