import OrderStream.Delivery.Snapshot

/-! What the client has after the events later than the snapshot. -/

namespace OrderStream

open Transition

def AppendArgs.Fitting (args : AppendArgs) : Prop := args.op = .delete ↔ args.after = none

theorem Watcher.fitting_of_appendArgs {cache : Orders} {change : Change} {op : Op}
    {correlationId : String} {args : AppendArgs}
    (prepared : Watcher.appendArgs cache change op correlationId = some args) :
    args.Fitting := by
  obtain ⟨found, sees, rfl⟩ := Watcher.appendArgs_eq_some prepared
  cases op with
  | delete =>
      cases sees
      exact iff_of_true rfl rfl
  | insert | update | replace =>
      obtain ⟨doc, -, rfl⟩ := Option.map_eq_some_iff.mp sees
      refine iff_of_false ?_ ?_ <;> exact fun equal => by cases equal

namespace Snapshot

open AuditTrail (eventsOf eventsOf_snoc_self eventsOf_snoc_of_ne)

section

variable (orders : Orders) {draft : Draft} {orderId : String}

theorem get?_applyEvent_self (fitting : draft.args.Fitting) :
    (applyEvent orders draft.event).get? draft.args.orderId = draft.canonAfter := by
  unfold applyEvent Draft.event Draft.canonAfter
  dsimp only
  split
  · rename_i delete
    rw [fitting.mp delete, PyDict.get?_erase_self]
    rfl
  · rename_i other
    obtain ⟨after, given⟩ := Option.ne_none_iff_exists'.mp (mt fitting.mpr other)
    rw [given]
    exact PyDict.get?_set_self _ _ _

theorem get?_applyEvent_of_ne (ne : orderId ≠ draft.args.orderId) :
    (applyEvent orders draft.event).get? orderId = orders.get? orderId := by
  unfold applyEvent
  split
  · exact PyDict.get?_erase_of_ne _ ne
  · split
    · exact PyDict.get?_set_of_ne _ _ ne
    · rfl

theorem lastWrite_applyEvent :
    LastWrite.Law (fun orders (draft : Draft) => applyEvent orders draft.event)
      (fun orders orderId => orders.get? orderId) (fun draft => draft.args.orderId)
      Draft.canonAfter (fun draft => draft.args.Fitting) where
  own orders _ fitting := get?_applyEvent_self orders fitting
  other orders _ _ ne := get?_applyEvent_of_ne orders ne

/-- The client has of each order what its last event left. -/
theorem get?_foldl_applyEvent {drafts : List Draft}
    (fitting : ∀ draft ∈ drafts, draft.args.Fitting) (orderId : String) :
    (drafts.foldl (fun orders draft => applyEvent orders draft.event) orders).get? orderId =
      ((eventsOf orderId drafts).getLast?.map Draft.canonAfter).getD (orders.get? orderId) :=
  lastWrite_applyEvent.get_foldl fitting orders orderId

end

structure Recording (state : Snapshot) : Prop where
  bounded : ∀ draft ∈ state.recorded, draft.seq ≤ state.tail.seq
  ordered : state.recorded.Pairwise fun earlier later => earlier.seq < later.seq
  fitting : ∀ draft ∈ state.recorded, draft.args.Fitting
  remembers : ∀ orderId draft, (eventsOf orderId state.recorded).getLast? = some draft →
    state.watcher.cache.get? orderId = draft.args.after
  prepared : ∀ position args, state.watcher.phase = .appending position args → args.Fitting
  inserting : ∀ draft, state.inserting = some draft →
    (∃ position, state.watcher.phase = .appending position draft.args) ∧
      draft.seq = state.tail.seq ∧ ∀ earlier ∈ state.recorded, earlier.seq < draft.seq
  head : ∀ head, state.headSeq = some head → head ≤ state.tail.seq

section

variable {state next : Snapshot} {head : Int} {orderId : String}

theorem idle_of_phase (recording : state.Recording)
    (away : ∀ position args, state.watcher.phase ≠ .appending position args) :
    state.inserting = none := by
  cases inserting : state.inserting with
  | none => rfl
  | some draft =>
      obtain ⟨⟨position, appending⟩, -⟩ := recording.inserting draft inserting
      exact absurd appending (away position draft.args)

theorem not_telling_of_phase
    (away : ∀ position args, state.watcher.phase ≠ .appending position args) :
    ¬state.Telling orderId := by
  rintro ⟨position, args, appending, -⟩
  exact away position args appending

theorem recording_step {action : SnapshotAction} (recording : state.Recording)
    (stepped : step state action = some next) : next.Recording := by
  obtain ⟨bounded, ordered, fitting, remembers, prepared, inserting, head⟩ := recording
  cases step_cases stepped with
  | wrote taken =>
      cases wrote_eq taken
      exact ⟨bounded, ordered, fitting, remembers, prepared, inserting, head⟩
  | opened taken =>
      obtain ⟨down, rfl⟩ := opened_eq taken
      refine ⟨bounded, ordered, fitting, remembers, ?_, ?_, head⟩
      · intro position args appending
        cases appending
      · intro draft under
        obtain ⟨⟨position, appending⟩, -⟩ := inserting draft under
        cases down.symm.trans appending
  | delivered taken =>
      obtain ⟨position, write, streaming, -, -, -, outcome⟩ := delivered_eq taken
      have idle (draft : Draft) (under : state.inserting = some draft) : False := by
        obtain ⟨⟨other, appending⟩, -⟩ := inserting draft under
        cases streaming.symm.trans appending
      rcases outcome with ⟨-, rfl⟩ | ⟨args, appends, rfl⟩
      · refine ⟨bounded, ordered, fitting, remembers, ?_, ?_, head⟩
        · intro other args appending
          cases appending
        · intro draft under
          exact (idle draft under).elim
      · refine ⟨bounded, ordered, fitting, remembers, ?_, ?_, head⟩
        · intro other args' appending
          cases appending
          exact Watcher.fitting_of_appendArgs appends
        · intro draft under
          exact (idle draft under).elim
  | @took position args eventId ts appending idle =>
      refine ⟨?_, ordered, fitting, remembers, prepared, ?_, ?_⟩
      · intro draft member
        exact Int.le_trans (bounded draft member) (Int.le_add_one (Int.le_refl _))
      · intro draft same
        cases same
        exact ⟨⟨position, appending⟩, rfl,
          fun earlier member => Int.lt_add_one_of_le (bounded earlier member)⟩
      · intro value read
        exact Int.le_trans (head value read) (Int.le_add_one (Int.le_refl _))
  | @stored draft _ under taken =>
      obtain ⟨⟨position, appending⟩, atTail, above⟩ := inserting draft under
      obtain ⟨_, args, appending', rfl⟩ := appended_eq taken
      cases appending.symm.trans appending'
      refine ⟨?_, ?_, ?_, ?_, ?_, ?_, head⟩
      · intro other member
        rcases List.mem_append.mp member with earlier | last
        · exact bounded other earlier
        · rw [List.mem_singleton.mp last]
          exact atTail.le
      · refine List.pairwise_append.mpr ⟨ordered, List.pairwise_singleton _ _, ?_⟩
        intro earlier member last isLast
        rw [List.mem_singleton.mp isLast]
        exact above earlier member
      · intro other member
        rcases List.mem_append.mp member with earlier | last
        · exact fitting other earlier
        · rw [List.mem_singleton.mp last]
          exact prepared position draft.args appending
      · intro orderId last found
        by_cases own : orderId = draft.args.orderId
        · subst own
          rw [eventsOf_snoc_self, List.getLast?_concat] at found
          cases found
          exact Watcher.get?_remember_self _ _
        · rw [eventsOf_snoc_of_ne _ own] at found
          rw [Watcher.get?_remember_of_ne _ _ own]
          exact remembers orderId last found
      · intro _ _ appending
        cases appending
      · intro _ same
        cases same
  | added taken =>
      obtain ⟨position, adding, rfl⟩ := added_eq taken
      refine ⟨bounded, ordered, fitting, remembers, ?_, ?_, head⟩
      · intro _ _ appending
        cases appending
      · intro draft under
        obtain ⟨⟨other, appending⟩, -⟩ := inserting draft under
        cases adding.symm.trans appending
  | headRead _ =>
      refine ⟨bounded, ordered, fitting, remembers, prepared, inserting, ?_⟩
      intro value same
      cases same
      exact Int.le_refl _
  | orderRead _ _ _ | responded _ _ _ _ =>
      exact ⟨bounded, ordered, fitting, remembers, prepared, inserting, head⟩
  | refused _ _ =>
      refine ⟨bounded, ordered, fitting, remembers, prepared, inserting, ?_⟩
      intro value none
      cases none

theorem eventsOf_filter (test : Draft → Bool) (drafts : List Draft) :
    eventsOf orderId (drafts.filter test) = (eventsOf orderId drafts).filter test := by
  unfold eventsOf
  rw [List.filter_filter, List.filter_filter]
  apply List.filter_congr
  intro draft _
  exact Bool.and_comm _ _

theorem view_of_untold (recording : state.Recording) (read : state.headSeq = some head)
    (untold : ¬state.Told orderId) :
    (state.view head).get? orderId = (state.orders.get? orderId).map servedDoc := by
  have none : eventsOf orderId (state.recorded.filter fun draft => decide (head < draft.seq)) =
      [] := by
    rw [List.eq_nil_iff_forall_not_mem]
    intro draft member
    obtain ⟨inside, own⟩ := List.mem_filter.mp member
    obtain ⟨recorded, later⟩ := List.mem_filter.mp inside
    exact untold ⟨head, draft, read, recorded, of_decide_eq_true own, of_decide_eq_true later⟩
  rw [view, get?_foldl_applyEvent _ _ orderId, none]
  · exact PyDict.get?_mapValues _ _ _
  · intro draft member
    exact recording.fitting draft (List.mem_of_mem_filter member)

theorem view_of_told (recording : state.Recording) (read : state.headSeq = some head)
    (told : state.Told orderId) :
    (state.view head).get? orderId =
      (state.watcher.cache.get? orderId).map canonicalDoc := by
  obtain ⟨_, draft, read', recorded, own, later⟩ := told
  cases read.symm.trans read'
  have present : draft ∈ eventsOf orderId state.recorded :=
    List.mem_filter.mpr ⟨recorded, decide_eq_true own⟩
  obtain ⟨earlier, last, split⟩ : ∃ earlier last,
      eventsOf orderId state.recorded = earlier ++ [last] := by
    rcases List.eq_nil_or_concat (eventsOf orderId state.recorded) with empty | split
    · rw [empty] at present
      cases present
    · simpa using split
  have final : head < last.seq := by
    have ordered := recording.ordered.filter fun draft => decide (draft.args.orderId = orderId)
    change (eventsOf orderId state.recorded).Pairwise _ at ordered
    rw [split] at ordered present
    rcases List.mem_append.mp present with before | same
    · exact Int.lt_trans later
        ((List.pairwise_append.mp ordered).2.2 draft before last List.mem_cons_self)
    · rw [← List.mem_singleton.mp same]
      exact later
  have known := recording.remembers orderId last (by rw [split, List.getLast?_concat])
  have kept : [last].filter (fun draft => decide (head < draft.seq)) = [last] := by
    simp [final]
  rw [view, get?_foldl_applyEvent _ _ orderId, eventsOf_filter, split, List.filter_append, kept,
    List.getLast?_concat, known]
  · rfl
  · intro draft member
    exact recording.fitting draft (List.mem_of_mem_filter member)

end

end Snapshot

end OrderStream
