import OrderStream.Delivery.SnapshotClient

/-! Whether the snapshot and the events after it add up to the collection. -/

namespace OrderStream

open Transition

namespace Snapshot

section

variable {state next : Snapshot} {head : Int} {orderId : String}

structure Watched (watcher : Lifecycle) : Prop where
  valid : watcher.ValidHistory
  running : watcher.phase = .down ∧ watcher.token = none ∨
    watcher.phase.next?.isSome = true ∧ watcher.SoundIn watcher.phase

theorem Watched.open_of_next {watcher : Lifecycle} (watched : Watched watcher) {position : Nat}
    (opened : watcher.phase.next? = some position) : watcher.SoundIn watcher.phase := by
  rcases watched.running with ⟨down, -⟩ | ⟨-, sound⟩
  · rw [down] at opened
    cases opened
  · exact sound

theorem watched_keep {watcher after : Lifecycle} {action : LifecycleAction}
    (watched : Watched watcher) (stepped : Lifecycle.step watcher action = some after)
    (other : action ≠ .openStream)
    (down : watcher.phase = .down → after.phase = .down ∧ after.token = watcher.token)
    (opened : watcher.phase.next?.isSome = true → after.phase.next?.isSome = true) :
    Watched after := by
  refine ⟨Lifecycle.validHistory_step watched.valid stepped, ?_⟩
  rcases watched.running with ⟨waiting, token⟩ | ⟨running, sound⟩
  · obtain ⟨still, same⟩ := down waiting
    exact Or.inl ⟨still, same.trans token⟩
  · refine Or.inr ⟨opened running, ?_⟩
    exact Lifecycle.sound_step watched.valid sound (fun opens => absurd opens other) stepped

theorem watched_opened {watcher after : Lifecycle} (watched : Watched watcher)
    (current : watcher.Current) (stepped : Lifecycle.step watcher .openStream = some after) :
    Watched after ∧ after.phase = .streaming after.writes.length := by
  have valid := Lifecycle.validHistory_step watched.valid stepped
  obtain ⟨down, rfl⟩ := opened_eq stepped
  have token : watcher.token = none := by
    rcases watched.running with ⟨-, token⟩ | ⟨running, -⟩
    · exact token
    · rw [down] at running
      cases running
  have sound : watcher.SoundIn .down := by
    constructor
    · intro position saved
      cases token.symm.trans saved
    · intro _ orderId _
      exact current orderId
  refine ⟨⟨valid, Or.inr ⟨rfl, ?_⟩⟩, ?_⟩
  · exact (sound.opened fun _ orderId _ => current orderId).moved _
  · change WatcherPhase.streaming _ = .streaming _
    rw [token]
    rfl

theorem watched_step {action : SnapshotAction} (watched : Watched state.watcher)
    (timely : state.Timely action) (stepped : step state action = some next) :
    Watched next.watcher := by
  cases step_cases stepped with
  | wrote taken =>
      refine watched_keep watched taken (by simp) ?_ ?_
      · intro down
        cases wrote_eq taken
        exact ⟨down, rfl⟩
      · intro opened
        cases wrote_eq taken
        exact opened
  | opened taken => exact (watched_opened watched (fun orderId => (timely orderId).1) taken).1
  | delivered taken =>
      obtain ⟨position, write, streaming, -, -, -, outcome⟩ := delivered_eq taken
      refine watched_keep watched taken (by simp) ?_ ?_
      · intro down
        cases down.symm.trans streaming
      · intro _
        rcases outcome with ⟨-, rfl⟩ | ⟨args, -, rfl⟩ <;> rfl
  | stored _ taken =>
      obtain ⟨position, args, appending, equal⟩ := appended_eq taken
      refine watched_keep watched taken (by simp) ?_ ?_
      · intro down
        cases down.symm.trans appending
      · intro _
        rw [equal]
        rfl
  | added taken =>
      obtain ⟨position, adding, equal⟩ := added_eq taken
      refine watched_keep watched taken (by simp) ?_ ?_
      · intro down
        cases down.symm.trans adding
      · intro _
        rw [equal]
        rfl
  | took _ _ | headRead _ | orderRead _ _ _ | responded _ _ _ _ | refused _ _ => exact watched

structure Copies (state : Snapshot) : Prop where
  unread : state.headSeq = none → ∀ orderId, state.copiedAt orderId = none
  present : ∀ orderId, state.reads.get? orderId = none ↔ state.orders.get? orderId = none
  within : ∀ orderId count, state.copiedAt orderId = some count →
    count ≤ state.watcher.writes.length

theorem Copies.started (copies : state.Copies)
    (copied : (state.copiedAt orderId).isSome = true) : ∃ head, state.headSeq = some head := by
  cases read : state.headSeq with
  | some head => exact ⟨head, rfl⟩
  | none =>
      rw [copies.unread read orderId] at copied
      cases copied

theorem writes_step {action : SnapshotAction} (stepped : step state action = some next) :
    state.watcher.writes.length ≤ next.watcher.writes.length := by
  cases step_cases stepped with
  | wrote taken =>
      cases wrote_eq taken
      rw [Lifecycle.wrote, List.length_append]
      exact Nat.le_add_right _ _
  | opened taken =>
      obtain ⟨-, rfl⟩ := opened_eq taken
      exact Nat.le_refl _
  | delivered taken =>
      obtain ⟨_, _, -, -, -, -, ⟨-, rfl⟩ | ⟨_, -, rfl⟩⟩ := delivered_eq taken <;>
        exact Nat.le_refl _
  | stored _ taken =>
      obtain ⟨_, _, -, rfl⟩ := appended_eq taken
      exact Nat.le_refl _
  | added taken =>
      obtain ⟨_, -, rfl⟩ := added_eq taken
      exact Nat.le_refl _
  | took _ _ | headRead _ | orderRead _ _ _ | responded _ _ _ _ | refused _ _ =>
      exact Nat.le_refl _

theorem copiedAt_read (reads : PyDict String Nat) (answered : Option Nat) (orderId : String)
    (count : Nat) (other : String) :
    ((reads.set orderId count).get? other).or answered =
      if other = orderId then some count else (reads.get? other).or answered := by
  rw [PyDict.get?_set]
  split
  · rfl
  · rfl

theorem copies_step {action : SnapshotAction} (copies : state.Copies)
    (stepped : step state action = some next) : next.Copies := by
  have grows := writes_step stepped
  obtain ⟨unread, present, within⟩ := copies
  have onward : ∀ orderId count, state.copiedAt orderId = some count →
      count ≤ next.watcher.writes.length :=
    fun orderId count copied => Nat.le_trans (within orderId count copied) grows
  cases step_cases stepped with
  | wrote _ | opened _ | delivered _ | took _ _ | stored _ _ | added _ =>
      exact ⟨unread, present, onward⟩
  | headRead _ =>
      refine ⟨?_, present, onward⟩
      intro missing
      cases missing
  | @orderRead _ orderId doc read _ _ =>
      refine ⟨?_, ?_, ?_⟩
      · intro missing
        cases read.symm.trans missing
      · intro other
        change (PyDict.set state.reads orderId _).get? other = none ↔
          (PyDict.set state.orders orderId _).get? other = none
        rw [PyDict.get?_set, PyDict.get?_set]
        split
        · simp
        · exact present other
      · intro other count copied
        unfold copiedAt at copied
        rw [copiedAt_read] at copied
        split at copied
        · cases copied
          exact Nat.le_refl _
        · exact within other count copied
  | refused unanswered _ =>
      have uncopied (orderId : String) :
          ((∅ : PyDict String Nat).get? orderId).or state.answered = none := by
        rw [unanswered]
        rfl
      refine ⟨fun _ => uncopied, fun _ => iff_of_true rfl rfl, ?_⟩
      intro orderId count copied
      cases (uncopied orderId).symm.trans copied
  | responded read unanswered _ _ =>
      refine ⟨?_, present, ?_⟩
      · intro missing
        cases read.symm.trans missing
      · intro other count copied
        unfold copiedAt at copied
        cases found : state.reads.get? other with
        | some earlier =>
            rw [found] at copied
            apply within other count
            rw [copiedAt, found]
            exact copied
        | none =>
            rw [found] at copied
            cases copied
            exact Nat.le_refl _

end

def effective (state : Snapshot) : Orders :=
  match state.headSeq, state.inserting with
  | some head, some draft =>
      if draft.seq ≤ head then Watcher.remember state.watcher.cache draft.args
      else state.watcher.cache
  | _, _ => state.watcher.cache

/-- An event of the order is later than `head_seq` or will be; or the cache shows the copy;
or a change is to come that shows it, or is an event for sure. -/
inductive Accounted (state : Snapshot) (position : Nat) (orderId : String) : Prop where
  | told : state.Told orderId → Accounted state position orderId
  | telling : state.Telling orderId → Accounted state position orderId
  | settled : Option.Rel Doc.SameGets (state.orders.get? orderId)
        (state.effective.get? orderId) →
      Accounted state position orderId
  | ahead {later : Nat} {write : Write} : position ≤ later →
      state.watcher.writes[later]? = some write → write.orderId = orderId →
        write.op ≠ .update ∨ state.Left later orderId → Accounted state position orderId

def AllAccounted (state : Snapshot) : Prop :=
  ∀ position orderId, state.watcher.phase.next? = some position →
    (state.copiedAt orderId).isSome = true → state.Accounted position orderId

section

variable {state next : Snapshot} {position : Nat} {orderId : String}

theorem effective_of_idle (idle : state.inserting = none) :
    state.effective = state.watcher.cache := by
  unfold effective
  rw [idle]
  cases state.headSeq <;> rfl

theorem effective_of_ne (ne : ∀ draft, state.inserting = some draft →
    orderId ≠ draft.args.orderId) :
    state.effective.get? orderId = state.watcher.cache.get? orderId := by
  unfold effective
  split
  · split
    · exact Watcher.get?_remember_of_ne _ _ (ne _ ‹_›)
    · rfl
  · rfl

theorem last_change {writes : List Write}
    (changed : ∃ write ∈ writes.drop position, write.orderId = orderId) :
    ∃ later write, position ≤ later ∧ writes[later]? = some write ∧
      write.orderId = orderId ∧ ∀ other ∈ writes.drop (later + 1), other.orderId ≠ orderId := by
  induction writes using List.reverseRecOn with
  | nil =>
      obtain ⟨write, member, -⟩ := changed
      simp at member
  | append_singleton writes last ih =>
      obtain ⟨write, member, own⟩ := changed
      rw [List.drop_append] at member
      by_cases mine : last.orderId = orderId ∧ position ≤ writes.length
      · refine ⟨writes.length, last, mine.2, List.getElem?_concat_length, mine.1, ?_⟩
        intro other behind
        simp at behind
      · have earlier : write ∈ writes.drop position := by
          rcases List.mem_append.mp member with earlier | final
          · exact earlier
          · have inside : position ≤ writes.length := by
              by_contra outside
              rw [List.drop_of_length_le (by rw [List.length_singleton]; omega)] at final
              cases final
            rw [List.mem_singleton.mp (List.mem_of_mem_drop final)] at own
            exact absurd ⟨own, inside⟩ mine
        obtain ⟨later, found, beyond, present, same, quiet⟩ := ih ⟨write, earlier, own⟩
        obtain ⟨inside, -⟩ := List.getElem?_eq_some_iff.mp present
        refine ⟨later, found, beyond, ?_, same, ?_⟩
        · rw [List.getElem?_append_left inside]
          exact present
        · rw [List.drop_append_of_le_length inside]
          intro other behind
          rcases List.mem_append.mp behind with before | final
          · exact quiet other before
          · rw [List.mem_singleton.mp final]
            intro same
            apply mine
            refine ⟨same, Nat.le_trans beyond (Nat.le_of_lt inside)⟩

theorem deleted_between {initial : Orders} {writes : List Write} {doc : Doc}
    (found : writes[position]? = some (.update orderId doc)) {seen : Nat}
    (after : position < seen) (inside : seen ≤ writes.length)
    (gone : (version initial writes seen).get? orderId = none) :
    ∃ later, position < later ∧ writes[later]? = some (.delete orderId) := by
  induction seen, after using Nat.le_induction with
  | base =>
      rw [version_succ _ found] at gone
      change ((Write.update orderId doc).apply _).get? (Write.update orderId doc).orderId =
        none at gone
      rw [Write.get?_apply_self] at gone
      cases gone
  | succ seen after ih =>
      obtain ⟨write, present⟩ : ∃ write, writes[seen]? = some write :=
        ⟨_, List.getElem?_eq_getElem inside⟩
      rw [version_succ _ present] at gone
      by_cases own : orderId = write.orderId
      · rw [own, Write.get?_apply_self] at gone
        cases write with
        | delete other =>
            refine ⟨seen, after, ?_⟩
            rw [own]
            exact present
        | insert _ _ | update _ _ | replace _ _ => cases gone
      · rw [Write.get?_apply_of_ne _ _ own] at gone
        exact ih (Nat.le_of_succ_le inside) gone

theorem sameGets_symm {left right : Option Doc} (same : Option.Rel Doc.SameGets left right) :
    Option.Rel Doc.SameGets right left := by
  cases same with
  | none => exact .none
  | some same => exact .some fun field compared => (same field compared).symm

theorem sameGets_trans {first second third : Option Doc}
    (left : Option.Rel Doc.SameGets first second)
    (right : Option.Rel Doc.SameGets second third) : Option.Rel Doc.SameGets first third :=
  relTrans Doc.SameGets (fun _ _ _ => Doc.SameGets.trans) left right

/-- Where no change of the order is to come, the cache shows the collection's, or the event
under way will tell it. -/
theorem accounted_of_untouched (recording : state.Recording) (watched : Watched state.watcher)
    {head : Int} (read : state.headSeq = some head)
    (opened : state.watcher.phase.next? = some position)
    (untouched : state.watcher.Untouched position orderId)
    (copied : Option.Rel Doc.SameGets (state.orders.get? orderId)
      (state.watcher.orders.get? orderId)) :
    state.Accounted position orderId := by
  have sound := watched.open_of_next opened
  have settled (shows : state.watcher.Shows orderId)
      (ne : ∀ draft, state.inserting = some draft → orderId ≠ draft.args.orderId) :
      state.Accounted position orderId := by
    apply Accounted.settled
    rw [effective_of_ne ne]
    exact sameGets_trans copied (sameGets_symm shows)
  cases phase : state.watcher.phase with
  | scanning _ | stopped | down =>
      rw [phase] at opened
      cases opened
  | streaming other =>
      rw [phase] at sound opened
      cases opened
      obtain ⟨-, applied, catchesUp⟩ := sound
      refine settled (catchesUp.settled orderId untouched) ?_
      intro draft under
      cases (idle_of_phase recording (by simp [phase])).symm.trans under
  | adding other =>
      rw [phase] at sound opened
      cases opened
      refine settled (sound.2.settled orderId untouched) ?_
      intro draft under
      cases (idle_of_phase recording (by simp [phase])).symm.trans under
  | appending other args =>
      rw [phase] at sound opened
      cases opened
      obtain ⟨-, ⟨applied, catchesUp⟩, write, prepares⟩ := sound
      have under (draft : Draft) (inserting : state.inserting = some draft) :
          draft.args = args := by
        obtain ⟨⟨_, appending⟩, -⟩ := recording.inserting draft inserting
        cases phase.symm.trans appending
        rfl
      by_cases own : orderId = args.orderId
      · subst own
        by_cases early : ∃ draft, state.inserting = some draft ∧ draft.seq ≤ head
        · obtain ⟨draft, inserting, before⟩ := early
          have after : state.effective.get? args.orderId = args.after := by
            rw [effective, read, inserting]
            dsimp only
            rw [if_pos before, under draft inserting, Watcher.get?_remember_self]
          apply Accounted.settled
          rw [after]
          have same := prepares.settled (prepares.named ▸ untouched)
          rw [← prepares.named] at same
          exact sameGets_trans copied (sameGets_symm same)
        · apply Accounted.telling
          refine ⟨other, args, phase, rfl, ?_⟩
          intro value draft read' inserting
          cases read.symm.trans read'
          by_contra before
          exact early ⟨draft, inserting, Int.not_lt.mp before⟩
      · refine settled (catchesUp.settled orderId ?_) ?_
        · exact untouched.back prepares.found (prepares.named ▸ own)
        · intro draft inserting
          rw [under draft inserting]
          exact own

theorem accounted_now (recording : state.Recording) (watched : Watched state.watcher)
    {head : Int} (read : state.headSeq = some head)
    (opened : state.watcher.phase.next? = some position)
    (now : state.copiedAt orderId = some state.watcher.writes.length)
    (accounts : Option.Rel Doc.SameGets (state.orders.get? orderId)
        (state.watcher.orders.get? orderId) ∨
      state.Told orderId ∨ state.Telling orderId ∨
        ∃ write ∈ state.watcher.writes.drop position, write.orderId = orderId) :
    state.Accounted position orderId := by
  by_cases changed : ∃ write ∈ state.watcher.writes.drop position, write.orderId = orderId
  · obtain ⟨later, write, beyond, present, own, quiet⟩ := last_change changed
    refine .ahead beyond present own (Or.inr ⟨_, now, ?_, ?_⟩)
    · exact (List.getElem?_eq_some_iff.mp present).1
    · rw [List.take_length]
      exact quiet
  · have untouched : state.watcher.Untouched position orderId :=
      fun write member own => changed ⟨write, member, own⟩
    rcases accounts with copied | told | telling | change
    · exact accounted_of_untouched recording watched read opened untouched copied
    · exact .told told
    · exact .telling telling
    · exact absurd change changed

theorem Accounted.wrote (accounted : state.Accounted position orderId)
    (copies : state.Copies) (write : Write) (written : List String) :
    Accounted { state with watcher := state.watcher.wrote write, written } position orderId := by
  cases accounted with
  | told told => exact .told told
  | telling telling => exact .telling telling
  | settled settled => exact .settled settled
  | ahead beyond present own left =>
      refine .ahead beyond ?_ own ?_
      · change (state.watcher.writes ++ [write])[_]? = _
        rw [List.getElem?_append_left (List.getElem?_eq_some_iff.mp present).1]
        exact present
      · refine left.imp_right ?_
        rintro ⟨count, copied, before, quiet⟩
        refine ⟨count, copied, before, ?_⟩
        change ∀ other ∈ ((state.watcher.writes ++ [write]).take count).drop _, _
        rw [List.take_append_of_le_length (copies.within orderId count copied)]
        exact quiet

theorem accounted_of_quiet (watched : Watched state.watcher) {write : Write} {seen : Nat}
    {resumeToken : Option Doc} {clusterTime : Option ClusterTime} {correlationId : String}
    (timely : state.Timely (.deliver seen resumeToken clusterTime correlationId))
    (streaming : state.watcher.phase = .streaming position)
    (idle : state.inserting = none)
    (found : state.watcher.writes[position]? = some write)
    (after : position < seen) (inside : seen ≤ state.watcher.writes.length)
    (quiet : Watcher.appendArgs state.watcher.cache
      (state.watcher.delivered write seen resumeToken clusterTime) write.op correlationId =
        none)
    (accounted : state.Accounted position orderId) :
    state.Accounted (position + 1) orderId := by
  cases accounted with
  | told told => exact .told told
  | telling telling => exact .telling telling
  | settled settled => exact .settled settled
  | @ahead later other beyond present own left =>
      rcases Nat.lt_or_eq_of_le beyond with further | here
      · exact .ahead further present own left
      · subst here
        cases found.symm.trans present
        obtain ⟨mine, doc, rfl⟩ := Write.update_of_quiet quiet
        change mine = orderId at own
        subst own
        rcases left with other | left
        · exact absurd rfl other
        · cases lookup : (version state.watcher.initial state.watcher.writes seen).get?
              mine with
          | none =>
              obtain ⟨later, beyond, present⟩ := deleted_between found after inside lookup
              exact .ahead beyond present rfl (Or.inl (by simp [Write.op]))
          | some doc' =>
              have opened : state.watcher.phase.next? = some position := by
                rw [streaming]
                rfl
              have sound := watched.open_of_next opened
              rw [streaming] at sound
              obtain ⟨-, applied, catchesUp⟩ := sound
              have cached := catchesUp.cached found (watched.valid _ _ found)
              have shows := Lifecycle.cached_of_quiet cached lookup quiet
              by_cases told : state.Told mine
              · exact .told told
              · apply Accounted.settled
                rw [effective_of_idle idle]
                exact sameGets_trans
                  (timely position mine doc doc' streaming found left told lookup shows)
                  (sameGets_symm shows)

theorem accounted_delivered (recording : state.Recording) (watched : Watched state.watcher)
    (all : state.AllAccounted) {seen : Nat} {resumeToken : Option Doc}
    {clusterTime : Option ClusterTime} {correlationId : String} {watcher : Lifecycle}
    (timely : state.Timely (.deliver seen resumeToken clusterTime correlationId))
    (taken : Lifecycle.step state.watcher
      (.deliver seen resumeToken clusterTime correlationId) = some watcher) :
    AllAccounted { state with watcher } := by
  obtain ⟨position, write, streaming, found, after, inside, outcome⟩ := delivered_eq taken
  have opened : state.watcher.phase.next? = some position := by
    rw [streaming]
    rfl
  have away : ∀ other args, state.watcher.phase ≠ .appending other args := by
    simp [streaming]
  have idle := idle_of_phase recording away
  rcases outcome with ⟨quiet, rfl⟩ | ⟨args, appends, rfl⟩
  · intro next orderId nextOpened copied
    cases nextOpened
    cases accounted_of_quiet watched timely streaming idle found after inside quiet
        (all position orderId opened copied) with
    | told told => exact .told told
    | telling telling => exact absurd telling (not_telling_of_phase away)
    | settled settled => exact .settled settled
    | ahead beyond present own left => exact .ahead beyond present own left
  · intro next orderId nextOpened copied
    cases nextOpened
    have named : args.orderId = write.orderId := by
      obtain ⟨_, -, rfl⟩ := Watcher.appendArgs_eq_some appends
      rfl
    by_cases own : args.orderId = orderId
    · refine .telling ⟨position, args, rfl, own, ?_⟩
      intro head draft _ under
      cases idle.symm.trans under
    · cases all position orderId opened copied with
      | told told => exact .told told
      | telling telling => exact absurd telling (not_telling_of_phase away)
      | settled settled => exact .settled settled
      | @ahead later other beyond present mine left =>
          rcases Nat.lt_or_eq_of_le beyond with further | here
          · exact .ahead further present mine left
          · subst here
            cases found.symm.trans present
            exact absurd (named.trans mine) own

theorem accounted_took (recording : state.Recording) (copies : state.Copies)
    (all : state.AllAccounted) (args : AppendArgs) (eventId : String) (ts : Temporal)
    (idle : state.inserting = none) :
    AllAccounted { state with
      tail := { state.tail with seq := state.tail.seq + 1 }
      inserting := some (state.draft args eventId ts) } := by
  intro position orderId opened copied
  have later (head : Int) (read : state.headSeq = some head) : head < state.tail.seq + 1 :=
    Int.lt_add_one_of_le (recording.head head read)
  cases all position orderId opened copied with
  | told told => exact .told told
  | telling telling =>
      obtain ⟨mine, args', appending', own, -⟩ := telling
      refine .telling ⟨mine, args', appending', own, ?_⟩
      intro head draft read under
      cases under
      exact later head read
  | settled settled =>
      obtain ⟨head, read⟩ := copies.started copied
      have kept : effective { state with
          tail := { state.tail with seq := state.tail.seq + 1 }
          inserting := some (state.draft args eventId ts) } = state.watcher.cache := by
        rw [effective]
        dsimp only
        rw [read]
        exact if_neg (Int.not_le.mpr (later head read))
      apply Accounted.settled
      rw [kept, ← effective_of_idle idle]
      exact settled
  | ahead beyond present own left => exact .ahead beyond present own left

theorem accounted_stored (recording : state.Recording) (copies : state.Copies)
    (all : state.AllAccounted) {draft : Draft} {watcher : Lifecycle}
    (under : state.inserting = some draft)
    (taken : Lifecycle.step state.watcher .appended = some watcher) :
    AllAccounted { state with
      watcher
      tail := { state.tail with hash := draft.hash }
      inserting := none
      recorded := state.recorded ++ [draft] } := by
  obtain ⟨⟨other, appending⟩, -⟩ := recording.inserting draft under
  obtain ⟨_, args, appending', rfl⟩ := appended_eq taken
  cases appending.symm.trans appending'
  intro position orderId opened copied
  cases opened
  have before : state.watcher.phase.next? = some (other + 1) := by
    rw [appending]
    rfl
  have told (earlier : state.Told orderId) :
      Told { state with
        watcher := { state.watcher with
          cache := Watcher.remember state.watcher.cache draft.args
          phase := .adding other }
        tail := { state.tail with hash := draft.hash }
        inserting := none
        recorded := state.recorded ++ [draft] } orderId := by
    obtain ⟨head, event, read, member, own, later⟩ := earlier
    exact ⟨head, event, read, List.mem_append_left _ member, own, later⟩
  obtain ⟨head, read⟩ := copies.started copied
  by_cases late : head < draft.seq ∧ draft.args.orderId = orderId
  · exact .told ⟨head, draft, read, List.mem_append_right _ List.mem_cons_self, late.2, late.1⟩
  · cases all (other + 1) orderId before copied with
    | told earlier => exact .told (told earlier)
    | telling telling =>
        obtain ⟨_, args', appending', own, later⟩ := telling
        cases appending.symm.trans appending'
        exact absurd ⟨later head draft read under, own⟩ late
    | settled settled =>
        apply Accounted.settled
        rw [effective_of_idle rfl]
        rw [effective, read, under] at settled
        dsimp only at settled ⊢
        split at settled
        · exact settled
        · rename_i after
          rw [Watcher.get?_remember_of_ne]
          · exact settled
          · intro own
            exact late ⟨Int.not_le.mp after, own.symm⟩
    | ahead beyond present own left => exact .ahead beyond present own left

theorem entry_sameGets (orderId : String) (doc : Doc) : (entry orderId doc).SameGets doc := by
  intro field compared
  have kept : field ≠ "_id" := by
    rintro rfl
    cases compared
  rw [Doc.get, entry, PyDict.get?_set_of_ne _ _ kept]
  exact .refl _

theorem Accounted.copy {orders : Orders} {reads : PyDict String Nat} {answered : Option Nat}
    (accounted : state.Accounted position orderId)
    (same : orders.get? orderId = state.orders.get? orderId)
    (copied : (reads.get? orderId).or answered = state.copiedAt orderId) :
    Accounted { state with orders, reads, answered } position orderId := by
  cases accounted with
  | told told => exact .told told
  | telling telling => exact .telling telling
  | settled settled =>
      apply Accounted.settled
      change Option.Rel _ (orders.get? orderId) (state.effective.get? orderId)
      rw [same]
      exact settled
  | ahead beyond present own left =>
      refine .ahead beyond present own (left.imp_right ?_)
      rintro ⟨count, at_count, before, quiet⟩
      exact ⟨count, copied.trans at_count, before, quiet⟩

theorem accounted_read {head : Int} {doc : Doc}
    (recording : Recording { state with
      orders := state.orders.set orderId (entry orderId doc)
      reads := state.reads.set orderId state.watcher.writes.length })
    (watched : Watched state.watcher) (all : state.AllAccounted)
    (read : state.headSeq = some head)
    (found : state.watcher.orders.get? orderId = some doc) :
    AllAccounted { state with
      orders := state.orders.set orderId (entry orderId doc)
      reads := state.reads.set orderId state.watcher.writes.length } := by
  intro position other opened copied
  by_cases own : other = orderId
  · subst own
    refine accounted_now recording watched read opened ?_ (Or.inl ?_)
    · simp [copiedAt]
    · dsimp only
      rw [PyDict.get?_set_self, found]
      exact .some (entry_sameGets other doc)
  · have kept : ((state.reads.set orderId state.watcher.writes.length).get? other).or
        state.answered = state.copiedAt other := by
      rw [copiedAt_read, if_neg own]
      rfl
    rw [copiedAt, kept] at copied
    exact (all position other opened copied).copy (PyDict.get?_set_of_ne _ _ own) kept

theorem accounted_responded {head : Int}
    (recording : Recording { state with answered := some state.watcher.writes.length })
    (watched : Watched state.watcher) (copies : state.Copies) (all : state.AllAccounted)
    (timely : state.Timely .respond) (read : state.headSeq = some head)
    (renders : state.renders = true) :
    AllAccounted { state with answered := some state.watcher.writes.length } := by
  intro position orderId opened copied
  cases taken : state.reads.get? orderId with
  | some count =>
      have kept : (state.reads.get? orderId).or (some state.watcher.writes.length) =
          state.copiedAt orderId := by
        rw [copiedAt, taken]
        rfl
      rw [copiedAt, kept] at copied
      exact (all position orderId opened copied).copy rfl kept
  | none =>
      have missing := (copies.present orderId).mp taken
      refine accounted_now recording watched read opened ?_ ?_
      · rw [copiedAt, taken]
        rfl
      · cases present : state.watcher.orders.get? orderId with
        | none =>
            refine Or.inl ?_
            dsimp only
            rw [missing]
            exact .none
        | some doc =>
            have inside : orderId ∈ state.watcher.orders.keys :=
              PyDict.mem_keys_iff.mpr ⟨doc, present⟩
            exact Or.inr (timely renders position orderId opened inside missing)

theorem accounted_step {action : SnapshotAction} (recording : state.Recording)
    (watched : Watched state.watcher) (copies : state.Copies) (all : state.AllAccounted)
    (timely : state.Timely action) (stepped : step state action = some next) :
    next.AllAccounted := by
  have recordingNext := recording_step recording stepped
  have watchedNext := watched_step watched timely stepped
  cases step_cases stepped with
  | wrote taken =>
      cases wrote_eq taken
      intro position orderId opened copied
      exact (all position orderId opened copied).wrote copies _ _
  | opened taken =>
      obtain ⟨down, rfl⟩ := opened_eq taken
      have idle := idle_of_phase recording (by simp [down])
      intro position orderId _ copied
      apply Accounted.settled
      rw [effective_of_idle]
      · exact (timely orderId).2 copied
      · exact idle
  | delivered taken => exact accounted_delivered recording watched all timely taken
  | took _ idle => exact accounted_took recording copies all _ _ _ idle
  | stored under taken => exact accounted_stored recording copies all under taken
  | added taken =>
      obtain ⟨other, adding, rfl⟩ := added_eq taken
      intro position orderId opened copied
      have before : state.watcher.phase.next? = some position := by
        rw [adding]
        exact opened
      cases all position orderId before copied with
      | told told => exact .told told
      | telling telling => exact absurd telling (not_telling_of_phase (by simp [adding]))
      | settled settled => exact .settled settled
      | ahead beyond present own left => exact .ahead beyond present own left
  | headRead missing =>
      intro position orderId _ copied
      obtain ⟨head, read⟩ := copies.started copied
      cases missing.symm.trans read
  | orderRead read _ found =>
      exact accounted_read recordingNext watchedNext all read found
  | responded read _ _ renders =>
      exact accounted_responded recordingNext watchedNext copies all timely read renders
  | refused unanswered _ =>
      intro position orderId _ copied
      rw [copiedAt, unanswered] at copied
      cases copied

def started (initial cache : Orders) (tail : Tail) : Snapshot where
  watcher := { initial, cache, phase := .down }
  tail := tail

structure Sound (state : Snapshot) : Prop where
  recording : state.Recording
  watched : Watched state.watcher
  copies : state.Copies
  accounted : state.AllAccounted

theorem sound_started (initial cache : Orders) (tail : Tail) :
    (started initial cache tail).Sound := by
  refine ⟨⟨?_, .nil, ?_, ?_, ?_, ?_, ?_⟩, ⟨?_, Or.inl ⟨rfl, rfl⟩⟩, ⟨?_, ?_, ?_⟩, ?_⟩
  · intro draft member
    cases member
  · intro draft member
    cases member
  · intro orderId draft found
    cases found
  · intro position args appending
    cases appending
  · intro draft under
    cases under
  · intro head read
    cases read
  · intro position write found
    cases found
  · intro _ orderId
    rfl
  · intro orderId
    exact iff_of_true rfl rfl
  · intro orderId count copied
    cases copied
  · intro position orderId opened
    cases opened

theorem sound_step {action : SnapshotAction} (sound : state.Sound)
    (timely : state.Timely action) (stepped : step state action = some next) : next.Sound where
  recording := recording_step sound.recording stepped
  watched := watched_step sound.watched timely stepped
  copies := copies_step sound.copies stepped
  accounted := accounted_step sound.recording sound.watched sound.copies sound.accounted timely
    stepped

theorem sound_of_reached {initial cache : Orders} {tail : Tail}
    {actions : List SnapshotAction}
    (timely : Along step (fun _ => Timely) (started initial cache tail) actions)
    (reached : exec step (started initial cache tail) actions = some state) : state.Sound := by
  refine exec_induction_along (motive := fun _ => Sound) (sound_started initial cache tail) ?_
    timely reached
  intro _ middle action finish _ sound timely stepped
  exact sound_step sound timely stepped

theorem presents_served {shown stored : Option Doc}
    (same : Option.Rel Doc.SameGets shown stored) :
    Option.Rel Doc.PresentsServed (shown.map servedDoc) stored := by
  cases same with
  | none => exact .none
  | some same => exact .some ⟨_, Or.inl rfl, same⟩

theorem presents_canonical {shown stored : Option Doc}
    (same : Option.Rel Doc.SameGets shown stored) :
    Option.Rel Doc.PresentsServed (shown.map canonicalDoc) stored := by
  cases same with
  | none => exact .none
  | some same => exact .some ⟨_, Or.inr rfl, same⟩

/-- Where the watcher has processed every change, what is accounted for is presented. -/
theorem presents_of_drained (sound : state.Sound) (read : state.headSeq = some head)
    (answered : state.answered.isSome = true) (drained : state.watcher.drained = true)
    (orderId : String) :
    Option.Rel Doc.PresentsServed ((state.view head).get? orderId)
      (state.watcher.orders.get? orderId) := by
  obtain ⟨position, streaming, last⟩ : ∃ position,
      state.watcher.phase = .streaming position ∧ position = state.watcher.writes.length := by
    unfold Lifecycle.drained at drained
    split at drained
    · exact ⟨_, ‹_›, of_decide_eq_true drained⟩
    · cases drained
  have opened : state.watcher.phase.next? = some position := by
    rw [streaming]
    rfl
  have copied : (state.copiedAt orderId).isSome = true := by
    rw [copiedAt, Option.isSome_or, answered, Bool.or_true]
  have shows : state.watcher.Shows orderId :=
    Lifecycle.current_of_drained (sound.watched.open_of_next opened) drained orderId
  have away : ∀ other args, state.watcher.phase ≠ .appending other args := by
    simp [streaming]
  by_cases told : state.Told orderId
  · rw [view_of_told sound.recording read told]
    exact presents_canonical shows
  · rw [view_of_untold sound.recording read told]
    cases sound.accounted position orderId opened copied with
    | told later => exact absurd later told
    | telling telling => exact absurd telling (not_telling_of_phase away)
    | settled settled =>
        rw [effective_of_idle (idle_of_phase sound.recording away)] at settled
        exact presents_served (sameGets_trans settled shows)
    | ahead beyond present _ _ =>
        obtain ⟨inside, -⟩ := List.getElem?_eq_some_iff.mp present
        exact absurd (Nat.lt_of_le_of_lt beyond inside) (last ▸ Nat.lt_irrefl _)

/-- A client that starts from the snapshot's orders and applies the events later than
`head_seq`, which are stored in order, has the orders of the collection once every change
is processed, if the run is timely. -/
theorem snapshot_tail_no_gap {initial cache : Orders} {tail : Tail}
    {actions : List SnapshotAction}
    (timely : Along step (fun _ => Timely) (started initial cache tail) actions)
    (reached : exec step (started initial cache tail) actions = some state)
    (read : state.headSeq = some head) (answered : state.answered.isSome = true)
    (drained : state.watcher.drained = true) :
    (state.recorded.Pairwise fun earlier later => earlier.seq < later.seq) ∧
      ∀ orderId, Option.Rel Doc.PresentsServed ((state.view head).get? orderId)
        (state.watcher.orders.get? orderId) := by
  have sound := sound_of_reached timely reached
  exact ⟨sound.recording.ordered, presents_of_drained sound read answered drained⟩

end

/-! An order inserted while the snapshot is taken, and one changed back before its first
update is looked up. -/

def sampleOrder (status : String) : Doc :=
  .ofList [("_id", .str "1"), ("status", .str status), ("created_at", .temporal sampleTime)]

def insertedMeanwhile : List SnapshotAction :=
  [.openStream, .readHead, .write (.insert "1" (sampleOrder "pending")), .readOrder "1",
    .respond, .deliver 1 none none "correlation", .take "first" sampleTime, .stored, .added]

theorem timely_insertedMeanwhile (tail : Tail) :
    Along step (fun _ => Timely) (started ∅ ∅ tail) insertedMeanwhile := by
  refine along_cons.mpr ⟨?_, ?_⟩
  · intro orderId
    refine ⟨.none, ?_⟩
    intro copied
    cases copied
  intro opened stepped
  cases stepped
  refine along_cons.mpr ⟨trivial, ?_⟩
  intro headRead stepped
  cases stepped
  refine along_cons.mpr ⟨trivial, ?_⟩
  intro wrote stepped
  cases step_cases stepped with
  | wrote taken =>
      cases wrote_eq taken
      refine along_cons.mpr ⟨trivial, ?_⟩
      intro orderRead stepped
      cases stepped
      refine along_cons.mpr ⟨?_, ?_⟩
      · intro _ next orderId _ member missing
        have own : orderId = "1" := by
          obtain ⟨doc, found⟩ := PyDict.mem_keys_iff.mp member
          by_contra other
          change (PyDict.set ∅ "1" _).get? orderId = some doc at found
          rw [PyDict.get?_set_of_ne _ _ other] at found
          cases found
        rw [own] at missing
        cases missing
      intro responded stepped
      cases stepped
      refine along_cons.mpr ⟨?_, ?_⟩
      · intro position orderId doc found streaming present
        cases streaming
        cases present
      intro delivered _
      exact along_cons.mpr ⟨trivial, fun _ _ => along_cons.mpr ⟨trivial, fun _ _ =>
        along_cons.mpr ⟨trivial, fun _ _ => along_nil⟩⟩⟩

theorem snapshot_tail_no_gap_of_inserted :
    ∃ state, exec step (started ∅ ∅ ⟨0, auditGenesisHash⟩) insertedMeanwhile = some state ∧
      (state.view 0).contains "1" = true ∧
        ∀ orderId, Option.Rel Doc.PresentsServed ((state.view 0).get? orderId)
          (state.watcher.orders.get? orderId) := by
  have facts : (exec step (started ∅ ∅ ⟨0, auditGenesisHash⟩) insertedMeanwhile).map
      (fun state => (state.headSeq, state.answered.isSome, state.watcher.drained,
        (state.view 0).contains "1")) = some (some 0, true, true, true) := by
    decide +kernel
  obtain ⟨state, reached, values⟩ := Option.map_eq_some_iff.mp facts
  simp only [Prod.mk.injEq] at values
  obtain ⟨read, answered, drained, contains⟩ := values
  refine ⟨state, reached, contains, ?_⟩
  exact (snapshot_tail_no_gap (timely_insertedMeanwhile _) reached read answered drained).2

def changedBack : List SnapshotAction :=
  [.openStream, .readHead, .write (.update "1" (sampleOrder "cancelled")), .readOrder "1",
    .write (.update "1" (sampleOrder "pending")), .respond,
    .deliver 2 none none "first", .deliver 2 none none "second"]

theorem update_looked_up_late_is_missed :
    ∃ orders state, (∀ orderId, (started orders orders ⟨0, auditGenesisHash⟩).watcher.Shows
        orderId) ∧
      exec step (started orders orders ⟨0, auditGenesisHash⟩) changedBack = some state ∧
      state.headSeq = some 0 ∧ state.answered.isSome = true ∧ state.watcher.drained = true ∧
        ¬∀ orderId, Option.Rel Doc.PresentsServed ((state.view 0).get? orderId)
          (state.watcher.orders.get? orderId) := by
  have facts : (exec step (started (.ofList [("1", sampleOrder "pending")])
      (.ofList [("1", sampleOrder "pending")]) ⟨0, auditGenesisHash⟩) changedBack).map
      (fun state => (state.headSeq, state.answered.isSome, state.watcher.drained)) =
        some (some 0, true, true) := by
    decide +kernel
  obtain ⟨state, reached, values⟩ := Option.map_eq_some_iff.mp facts
  simp only [Prod.mk.injEq] at values
  obtain ⟨read, answered, drained⟩ := values
  refine ⟨_, state, fun _ => relRefl (fun _ _ _ => .refl _) _, reached, read, answered, drained,
    ?_⟩
  intro presents
  have shown := presents "1"
  have stored : state.watcher.orders.get? "1" = some (sampleOrder "pending") := by
    cases reached
    rfl
  have status : ((state.view 0).get? "1").map (·.get "status") = some (.str "cancelled") := by
    cases reached
    rfl
  obtain ⟨doc, found, cancelled⟩ := Option.map_eq_some_iff.mp status
  rw [stored, found] at shown
  cases shown with
  | some shown =>
      have pending : doc.get "status" = .str "pending" := shown.get_str rfl rfl
      rw [cancelled] at pending
      simp at pending

end Snapshot

end OrderStream
