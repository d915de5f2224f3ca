import OrderStream.Buffer.Conservation
import OrderStream.Delivery.ReplayCursor

/-! The end of the process: the watcher is stopped, and the buffer is flushed. -/

namespace OrderStream

open Transition

def PipelineAction.alone : PipelineAction → Bool
  | .append _ _ _ | .fail _ _ _ _ | .add => false
  | .expire _ | .flushAll | .drain _ | .engage | .release | .subscribe | .receive
  | .disconnect => true

def BufferAction.drains : BufferAction → Bool
  | .drain _ => true
  | _ => false

def PipelineAction.drains : PipelineAction → Bool
  | .drain _ => true
  | _ => false

namespace CohesionBuffer

variable {windows : Windows} {buffer next : CohesionBuffer}

theorem held_of_quiet {action : BufferAction}
    (stepped : step windows buffer action = some next) (quiet : action.added? = none)
    (empty : buffer.pending = ∅) :
    next.held.length + (if action.drains then 1 else 0) = buffer.held.length := by
  cases step_cases stepped with
  | bypassed _ | opened _ _ | merged _ _ => cases quiet
  | missed _ _ => rfl
  | expired _ stored =>
      rw [empty] at stored
      cases stored
  | flushed => exact held_flushed.length_eq
  | drained found => exact (held_drained found).length_eq.symm

theorem drain_enabled (empty : buffer.pending = ∅) (left : buffer.held ≠ []) :
    ∃ flush next, step windows buffer (.drain flush) = some next := by
  have more : buffer.flushes.flatten ≠ [] := by
    intro none
    apply left
    rw [held, empty, none]
    rfl
  obtain ⟨entry, member⟩ := List.exists_mem_of_ne_nil _ more
  obtain ⟨entries, listed, inside⟩ := List.mem_flatten.mp member
  obtain ⟨flush, found⟩ := List.mem_iff_getElem?.mp listed
  cases entries with
  | nil => cases inside
  | cons first rest =>
      refine ⟨flush, Option.isSome_iff_exists.mp ?_⟩
      rw [step, found]
      rfl

end CohesionBuffer

namespace Pipeline

variable {windows : Windows} {pipeline next finish : Pipeline}

/-- Every event stored is in an entry of the buffer, in an emission, on its way to the
buffer, or its append raised. -/
def Conserved (pipeline : Pipeline) : Prop :=
  (pipeline.buffer.members ++ pipeline.handed.toList ++ pipeline.unconfirmed).Perm
    (pipeline.appended.map Draft.event)

theorem added_of_bufferStep {action : PipelineAction} {bufferAction : BufferAction}
    {remaining : Option Event} (does : pipeline.BufferStep action bufferAction remaining) :
    bufferAction.added?.toList ++ remaining.toList = pipeline.handed.toList := by
  cases action with
  | add =>
      obtain ⟨rfl, event, handed, rfl⟩ := does
      rw [handed]
      rfl
  | expire _ | flushAll | drain _ =>
      obtain ⟨rfl, rfl⟩ := does
      rfl
  | _ => exact does.elim

theorem conserved_step {action : PipelineAction} (conserved : pipeline.Conserved)
    (stepped : step windows pipeline action = some next) : next.Conserved := by
  unfold Conserved at conserved ⊢
  cases step_cases stepped with
  | @appended args eventId ts _ idle _ =>
      rw [idle, Option.toList_none, List.append_nil] at conserved
      rw [List.map_append, List.map_singleton, Option.toList_some, List.append_assoc]
      refine ((List.perm_append_comm).append_left _).trans ?_
      rw [← List.append_assoc]
      exact conserved.append_right _
  | failed _ | engaged | released | subscribed _ | received _ _ | disconnected _ =>
      exact conserved
  | unconfirmed _ _ =>
      rw [List.map_append, List.map_singleton, ← List.append_assoc]
      exact conserved.append_right _
  | advanced does moved =>
      rw [broadcast_buffer, broadcast_handed, broadcast_unconfirmed, broadcast_appended]
      refine List.Perm.trans ?_ conserved
      refine List.Perm.append_right _ ?_
      refine ((CohesionBuffer.members_step moved).append_right _).trans ?_
      rw [List.append_assoc, added_of_bufferStep does]

theorem conserved_of_reached {log : EventLog} {tail : Tail} {taken : List PipelineAction}
    (reached : exec (step windows) { log, tail } taken = some pipeline) :
    pipeline.Conserved := by
  refine exec_invariant (motive := Conserved) ?_ ?_ reached
  · exact List.Perm.refl _
  · intro state action finish conserved stepped
    exact conserved_step conserved stepped

structure Stopping (pipeline : Pipeline) (left : Nat) : Prop where
  pending : pipeline.buffer.pending = ∅
  idle : pipeline.handed = none
  left : pipeline.buffer.held.length = left

theorem stopping_step {left : Nat} (stopping : pipeline.Stopping left) {action : PipelineAction}
    (alone : action.alone = true) (stepped : step windows pipeline action = some next) :
    ∃ rest, next.Stopping rest ∧ rest + (if action.drains then 1 else 0) = left := by
  obtain ⟨pending, idle, rfl⟩ := stopping
  cases step_cases stepped with
  | appended _ _ | failed _ | unconfirmed _ _ => cases alone
  | engaged | released | subscribed _ | received _ _ | disconnected _ =>
      exact ⟨_, ⟨pending, idle, rfl⟩, rfl⟩
  | @advanced _ bufferAction remaining buffer does moved =>
      have added := added_of_bufferStep does
      rw [idle, Option.toList_none, List.append_eq_nil_iff] at added
      have quiet := Option.toList_eq_nil_iff.mp added.1
      have turn := CohesionBuffer.held_of_quiet moved quiet pending
      refine ⟨buffer.held.length, ⟨?_, ?_, ?_⟩, ?_⟩
      · rw [broadcast_buffer]
        exact CohesionBuffer.pending_of_quiet moved quiet pending
      · rw [broadcast_handed]
        exact Option.toList_eq_nil_iff.mp added.2
      · rw [broadcast_buffer]
      · cases action with
        | expire _ | flushAll | drain _ =>
            obtain ⟨-, rfl⟩ := does
            exact turn
        | add => cases alone
        | _ => exact does.elim

theorem stopping_of_reached {left : Nat} (stopping : pipeline.Stopping left)
    {rest : List PipelineAction} (alone : ∀ action ∈ rest, action.alone = true)
    (reached : exec (step windows) pipeline rest = some finish) :
    ∃ still, finish.Stopping still ∧ still + rest.countP PipelineAction.drains = left := by
  induction rest generalizing pipeline left with
  | nil =>
      cases reached
      exact ⟨left, stopping, rfl⟩
  | cons action rest ih =>
      obtain ⟨next, stepped, onward⟩ := Option.bind_eq_some_iff.mp reached
      rw [List.forall_mem_cons] at alone
      obtain ⟨middle, soFar, turn⟩ := stopping_step stopping alone.1 stepped
      obtain ⟨still, stopped, counted⟩ := ih soFar alone.2 onward
      refine ⟨still, stopped, ?_⟩
      rw [List.countP_cons]
      omega

theorem stopping_flushAll (idle : pipeline.handed = none)
    (flushed : step windows pipeline .flushAll = some next) :
    next.Stopping pipeline.buffer.held.length := by
  cases step_cases flushed with
  | advanced does moved =>
      obtain ⟨rfl, rfl⟩ := does
      cases CohesionBuffer.step_cases moved with
      | flushed =>
          refine ⟨?_, ?_, ?_⟩
          · rw [broadcast_buffer]
          · rw [broadcast_handed]
            exact idle
          · rw [broadcast_buffer]
            exact CohesionBuffer.held_flushed.length_eq

/-- Once the watcher has stopped, `flush_all` takes one turn for each entry held, whatever
else goes on, and can take each of them; then every event stored has been emitted, in just
one emission, or its append raised. -/
theorem shutdown_sends_all {log : EventLog} {tail : Tail} {taken rest : List PipelineAction}
    (reached : exec (step windows) { log, tail } taken = some pipeline)
    (idle : pipeline.handed = none) (alone : ∀ action ∈ rest, action.alone = true)
    (stopped : exec (step windows) pipeline (.flushAll :: rest) = some finish) :
    rest.countP PipelineAction.drains ≤ pipeline.buffer.held.length ∧
      (rest.countP PipelineAction.drains < pipeline.buffer.held.length →
        ∃ flush next, step windows finish (.drain flush) = some next) ∧
      (rest.countP PipelineAction.drains = pipeline.buffer.held.length →
        (finish.buffer.emitted.flatMap Emission.members ++ finish.unconfirmed).Perm
          (finish.appended.map Draft.event)) := by
  have conserved : finish.Conserved :=
    conserved_of_reached (exec_append_some.mpr ⟨pipeline, reached, stopped⟩)
  obtain ⟨flushed, first, onward⟩ := Option.bind_eq_some_iff.mp stopped
  obtain ⟨still, ⟨pending, silent, left⟩, counted⟩ :=
    stopping_of_reached (stopping_flushAll idle first) alone onward
  refine ⟨by omega, ?_, ?_⟩
  · intro fewer
    have more : finish.buffer.held ≠ [] := by
      rw [← List.length_pos_iff]
      omega
    obtain ⟨flush, buffer, drained⟩ := CohesionBuffer.drain_enabled pending more
    refine ⟨flush, Option.isSome_iff_exists.mp ?_⟩
    rw [step, advance, drained]
    rfl
  · intro all
    have nothing : finish.buffer.held = [] := by
      rw [← List.length_eq_zero_iff]
      omega
    rw [Conserved, CohesionBuffer.members, nothing, silent] at conserved
    simpa using conserved

def bufferedAndRaised : List PipelineAction :=
  [.append statusArgs "first" sampleTime, .add, .fail insertArgs "second" sampleTime true]

theorem shutdown_sends_all_of_buffered :
    ∃ pipeline finish,
      exec (step CohesionBuffer.sampleWindows) { log := [], tail := ⟨0, auditGenesisHash⟩ }
          bufferedAndRaised = some pipeline ∧
        exec (step CohesionBuffer.sampleWindows) pipeline [.flushAll, .engage, .drain 0] =
          some finish ∧
        finish.unconfirmed.length = 1 ∧
        (finish.buffer.emitted.flatMap Emission.members ++ finish.unconfirmed).Perm
          (finish.appended.map Draft.event) := by
  have ran : (exec (step CohesionBuffer.sampleWindows)
      { log := [], tail := ⟨0, auditGenesisHash⟩ } bufferedAndRaised).map
        (fun pipeline => (pipeline.handed.isNone, pipeline.buffer.held.length,
          (exec (step CohesionBuffer.sampleWindows) pipeline
            [.flushAll, .engage, .drain 0]).map fun finish => finish.unconfirmed.length)) =
      some (true, 1, some 1) := by
    decide +kernel
  obtain ⟨pipeline, reached, facts⟩ := Option.map_eq_some_iff.mp ran
  simp only [Prod.mk.injEq, Option.isNone_iff_eq_none] at facts
  obtain ⟨idle, one, later⟩ := facts
  obtain ⟨finish, stopped, raised⟩ := Option.map_eq_some_iff.mp later
  refine ⟨pipeline, finish, reached, stopped, raised, ?_⟩
  have alone : ∀ action ∈ [PipelineAction.engage, .drain 0], action.alone = true := by
    simp [PipelineAction.alone]
  exact (shutdown_sends_all reached idle alone stopped).2.2 (by rw [one]; rfl)

end Pipeline

end OrderStream
