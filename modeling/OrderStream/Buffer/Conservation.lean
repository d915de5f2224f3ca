import OrderStream.Buffer.Coalescing

/-! Each event added is emitted once or still held, and each entry is emitted at most
once. -/

namespace OrderStream

open Transition

/-- An emission is counted with its `coalesced_count`, an entry with its `count`. -/
def Emission.counted (emission : Emission) : Nat := emission.event.coalescedCount

theorem StandsFor.coalescedCount {event : Event} {members : List Event}
    (stands : StandsFor event members)
    (single : ∀ member ∈ members, member.coalescedCount = 1) :
    event.coalescedCount = members.length := by
  obtain ⟨first, rest, rfl, rfl⟩ := stands
  cases found : rest.getLast? with
  | none =>
      rw [List.getLast?_eq_none_iff] at found
      subst found
      exact single first List.mem_cons_self
  | some last => rfl

namespace CohesionBuffer

variable {windows : Windows} {buffer next : CohesionBuffer} {actions : List BufferAction}

theorem held_sound (reached : exec (step windows) {} actions = some buffer) :
    ∀ entry ∈ buffer.held, entry.Sound := by
  have sound := entries_induction Pending.Sound (fun _ => True) (fun _ => trivial)
    Pending.sound_opened (fun _ event seen _ sound => sound.merge event seen)
    (fun _ _ => trivial) reached
  exact sound.1

def entries (buffer : CohesionBuffer) : List Nat :=
  buffer.emitted.filterMap Emission.entry ++ buffer.held.map Pending.timer

theorem entries_emit {held rest : List Pending} {entry : Pending}
    (emitted : List Emission) (apart : held.Perm (entry :: rest)) :
    ((emitted ++ [entry.emission]).filterMap Emission.entry ++
        rest.map Pending.timer).Perm
      (emitted.filterMap Emission.entry ++ held.map Pending.timer) := by
  rw [List.filterMap_append, List.append_assoc]
  exact ((apart.map Pending.timer).symm).append_left _

/-- Only a new entry brings a new flush task, and none is dropped or doubled. -/
theorem entries_step {action : BufferAction}
    (stepped : step windows buffer action = some next) :
    (next.started = buffer.started ∧ next.entries.Perm buffer.entries) ∨
      next.started = buffer.started + 1 ∧
        next.entries.Perm (buffer.started :: buffer.entries) := by
  cases step_cases stepped with
  | bypassed _ =>
      refine Or.inl ⟨rfl, ?_⟩
      rw [entries, emit, List.filterMap_append]
      change List.Perm ((_ ++ []) ++ _) _
      rw [List.append_nil]
      exact List.Perm.refl _
  | @opened event _ absent =>
      refine Or.inr ⟨rfl, ?_⟩
      have moved := (held_opened (.opened event buffer.started buffer.emitted.length)
        absent).map Pending.timer
      exact (moved.append_left _).trans List.perm_middle
  | @merged event existing _ stored =>
      refine Or.inl ⟨rfl, ?_⟩
      have before := (held_pending stored).map Pending.timer
      have after := (held_merged buffer event.orderId
        (existing.merge event buffer.emitted.length)).map Pending.timer
      exact (after.trans before.symm).append_left _
  | missed _ _ => exact Or.inl ⟨rfl, List.Perm.refl _⟩
  | expired _ stored => exact Or.inl ⟨rfl, entries_emit _ (held_pending stored)⟩
  | flushed => exact Or.inl ⟨rfl, (held_flushed.map Pending.timer).append_left _⟩
  | drained found => exact Or.inl ⟨rfl, entries_emit _ (held_drained found)⟩

theorem entries_of_reached (reached : exec (step windows) {} actions = some buffer) :
    buffer.entries.Nodup ∧ ∀ entry ∈ buffer.entries, entry < buffer.started := by
  refine exec_invariant (motive := fun buffer : CohesionBuffer =>
    buffer.entries.Nodup ∧ ∀ entry ∈ buffer.entries, entry < buffer.started) ?_ ?_ reached
  · exact ⟨List.nodup_nil, by simp [entries, held]⟩
  · rintro state action finish ⟨distinct, bounded⟩ stepped
    rcases entries_step stepped with ⟨same, kept⟩ | ⟨grown, opened⟩
    · refine ⟨kept.nodup_iff.mpr distinct, ?_⟩
      intro entry member
      rw [same]
      exact bounded entry (kept.mem_iff.mp member)
    · constructor
      · apply opened.nodup_iff.mpr
        refine List.nodup_cons.mpr ⟨?_, distinct⟩
        intro repeated
        exact Nat.lt_irrefl _ (bounded _ repeated)
      · intro entry member
        rw [grown]
        rcases List.mem_cons.mp (opened.mem_iff.mp member) with rfl | earlier
        · exact Nat.lt_succ_self _
        · exact Nat.lt_succ_of_lt (bounded entry earlier)

theorem sum_map_length {members : α → List Event} {counted : α → Nat} {all : List α}
    (equal : ∀ one ∈ all, counted one = (members one).length) :
    (all.map counted).sum = (all.flatMap members).length := by
  rw [List.length_flatMap, List.map_congr_left equal]

theorem counts_of_reached (reached : exec (step windows) {} actions = some buffer)
    (single : ∀ event ∈ addedEvents actions, event.coalescedCount = 1) :
    (buffer.emitted.map Emission.counted).sum + (buffer.held.map Pending.count).sum =
      (addedEvents actions).length := by
  have partition := members_of_reached reached
  have counted : ∀ emission ∈ buffer.emitted,
      emission.counted = emission.members.length := by
    intro emission emitted
    apply (emissions_stand_for reached emission emitted).coalescedCount
    intro member merged
    apply single member
    apply partition.mem_iff.mp
    exact List.mem_append_right _ (List.mem_flatMap.mpr ⟨emission, emitted, merged⟩)
  have held : ∀ entry ∈ buffer.held, entry.count = entry.members.length :=
    fun entry member => (held_sound reached entry member).count
  rw [sum_map_length counted, sum_map_length held, ← partition.length_eq, members,
    List.length_append, Nat.add_comm]

theorem pending_of_quiet {action : BufferAction}
    (stepped : step windows buffer action = some next) (quiet : action.added? = none)
    (empty : buffer.pending = ∅) : next.pending = ∅ := by
  cases step_cases stepped with
  | bypassed _ | opened _ _ | merged _ _ => cases quiet
  | missed _ _ => exact empty
  | expired _ stored =>
      rw [empty] at stored
      cases stored
  | flushed => rfl
  | drained _ => exact empty

theorem quiet_of_exec {more : List BufferAction}
    (reached : exec (step windows) buffer more = some next) (quiet : addedEvents more = [])
    (empty : buffer.pending = ∅) : next.pending = ∅ := by
  refine exec_induction (motive := fun more next =>
    addedEvents more = [] → next.pending = ∅) (fun _ => empty) ?_ reached quiet
  intro more middle action finish _ soFar stepped quiet
  rw [addedEvents_snoc, List.append_eq_nil_iff] at quiet
  exact pending_of_quiet stepped (Option.toList_eq_nil_iff.mp quiet.2) (soFar quiet.1)

theorem emitted_of_quiet {action : BufferAction}
    (stepped : step windows buffer action = some next) (quiet : action.added? = none)
    (empty : buffer.pending = ∅) (drained : buffer.flushes.flatten = []) :
    next.emitted = buffer.emitted ∧ next.flushes.flatten = [] := by
  cases step_cases stepped with
  | bypassed _ | opened _ _ | merged _ _ => cases quiet
  | missed _ _ => exact ⟨rfl, drained⟩
  | expired _ stored =>
      rw [empty] at stored
      cases stored
  | flushed =>
      refine ⟨rfl, ?_⟩
      rw [List.flatten_append, drained, empty]
      rfl
  | drained found =>
      have left := List.mem_flatten.mpr
        ⟨_, List.mem_of_getElem? found, List.mem_cons_self⟩
      rw [drained] at left
      cases left

theorem nothing_more_emitted {more : List BufferAction}
    (reached : exec (step windows) buffer more = some next) (quiet : addedEvents more = [])
    (empty : buffer.pending = ∅) (drained : buffer.flushes.flatten = []) :
    next.emitted = buffer.emitted ∧ next.held = [] := by
  have still : addedEvents more = [] →
      next.emitted = buffer.emitted ∧ next.flushes.flatten = [] := by
    refine exec_induction (motive := fun more next => addedEvents more = [] →
      next.emitted = buffer.emitted ∧ next.flushes.flatten = [])
      (fun _ => ⟨rfl, drained⟩) ?_ reached
    intro more middle action finish before soFar stepped quiet
    rw [addedEvents_snoc, List.append_eq_nil_iff] at quiet
    obtain ⟨emitted, left⟩ := soFar quiet.1
    obtain ⟨same, finished⟩ := emitted_of_quiet stepped
      (Option.toList_eq_nil_iff.mp quiet.2) (quiet_of_exec before quiet.1 empty) left
    exact ⟨same.trans emitted, finished⟩
  obtain ⟨emitted, finished⟩ := still quiet
  refine ⟨emitted, ?_⟩
  rw [held, quiet_of_exec reached quiet empty, finished]
  rfl

theorem pending_of_flushed {before after : List BufferAction}
    (reached : exec (step windows) {} (before ++ .flushAll :: after) = some buffer)
    (quiet : addedEvents after = []) : buffer.pending = ∅ := by
  obtain ⟨middle, _, rest⟩ := exec_append_some.mp reached
  obtain ⟨flushed, stepped, later⟩ := Option.bind_eq_some_iff.mp rest
  cases stepped
  exact quiet_of_exec later quiet rfl

theorem emitted_of_flushed {before after : List BufferAction}
    (reached : exec (step windows) {} (before ++ .flushAll :: after) = some buffer)
    (quiet : addedEvents after = []) (returned : buffer.flushes.flatten = []) :
    (buffer.emitted.flatMap Emission.members).Perm
      (addedEvents (before ++ .flushAll :: after)) := by
  have partition := members_of_reached reached
  rw [members, held, pending_of_flushed reached quiet, returned] at partition
  exact partition

/-- Every run of adds, timer expiries and `flush_all`s partitions the events added among
the emissions and the entries held, and so do the counts, when each event is added as
`append` returns it; no entry is emitted twice.  A `flush_all` after the last add leaves
nothing pending, and once the `flush_all`s have returned nothing more is emitted. -/
theorem no_loss_no_duplication (windows : Windows) {actions : List BufferAction}
    {buffer : CohesionBuffer} (reached : exec (step windows) {} actions = some buffer)
    (single : ∀ event ∈ addedEvents actions, event.coalescedCount = 1) :
    (buffer.held.flatMap Pending.members ++
        buffer.emitted.flatMap Emission.members).Perm (addedEvents actions) ∧
      (buffer.emitted.map Emission.counted).sum + (buffer.held.map Pending.count).sum =
        (addedEvents actions).length ∧
      (buffer.emitted.filterMap Emission.entry ++ buffer.held.map Pending.timer).Nodup ∧
      ∀ before after, actions = before ++ .flushAll :: after → addedEvents after = [] →
        buffer.pending = ∅ ∧
          (buffer.flushes.flatten = [] →
            ∀ more next, addedEvents more = [] →
              exec (step windows) buffer more = some next →
                next.emitted = buffer.emitted ∧ next.held = []) := by
  refine ⟨members_of_reached reached, counts_of_reached reached single,
    (entries_of_reached reached).1, ?_⟩
  rintro before after rfl quiet
  have empty := pending_of_flushed reached quiet
  refine ⟨empty, ?_⟩
  intro drained more next noMore further
  exact nothing_more_emitted further noMore empty drained

/-- The flush task of an entry that a `flush_all` took fires on the next entry. -/
def racingActions : List BufferAction :=
  [.add validated, .add repriced, .flushAll, .add shipped, .expire 0, .drain 0, .flushAll]

theorem no_loss_no_duplication_of_racing :
    ∃ buffer, exec (step sampleWindows) {} racingActions = some buffer ∧
      buffer.emitted.filterMap Emission.entry = [1, 0] ∧
      (buffer.emitted.map Emission.counted).sum + (buffer.held.map Pending.count).sum = 3 ∧
      buffer.pending = ∅ := by
  have facts : (exec (step sampleWindows) {} racingActions).map
      (fun buffer => buffer.emitted.filterMap Emission.entry) = some [1, 0] := by
    decide +kernel
  obtain ⟨buffer, reached, entries⟩ := Option.map_eq_some_iff.mp facts
  have single : ∀ event ∈ addedEvents racingActions, event.coalescedCount = 1 := by
    decide +kernel
  obtain ⟨_, counts, _, flushed⟩ := no_loss_no_duplication sampleWindows reached single
  refine ⟨buffer, reached, entries, counts, ?_⟩
  exact (flushed (racingActions.take 6) [] rfl rfl).1

end CohesionBuffer

end OrderStream
