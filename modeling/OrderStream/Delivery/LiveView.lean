import OrderStream.Buffer.CausalOrder
import OrderStream.Buffer.Coalescing
import OrderStream.Delivery.ReplayCursor
import OrderStream.Delivery.SnapshotClient
import OrderStream.Theory.Paging

/-! What a client that applies the events it receives shows of an order. -/

namespace OrderStream

open Transition
open LastWrite (updatesOf mem_updatesOf)
open Snapshot (applyEvent)

/-- Just a delete has no `after`. -/
def Event.Fitting (event : Event) : Prop := event.op = .delete ↔ event.after = none

theorem lastWrite_events :
    LastWrite.Law applyEvent (fun orders orderId => orders.get? orderId) Event.orderId
      Event.after Event.Fitting where
  own orders event fitting := by
    unfold applyEvent
    split
    · rename_i delete
      rw [fitting.mp delete, PyDict.get?_erase_self]
    · rename_i other
      obtain ⟨after, given⟩ := Option.ne_none_iff_exists'.mp (mt fitting.mpr other)
      rw [given]
      exact PyDict.get?_set_self _ _ _
  other orders event orderId ne := by
    unfold applyEvent
    split
    · exact PyDict.get?_erase_of_ne _ ne
    · split
      · exact PyDict.get?_set_of_ne _ _ ne
      · rfl

structure Told (emitted last : Event) : Prop where
  orderId : emitted.orderId = last.orderId
  seq : emitted.seq = last.seq
  op : emitted.op = last.op
  after : emitted.after = last.after

theorem StandsFor.told {event : Event} {members : List Event}
    (stands : StandsFor event members) : ∃ last ∈ members, Told event last := by
  obtain ⟨first, rest, rfl, rfl⟩ := stands
  cases found : rest.getLast? with
  | none => exact ⟨first, List.mem_cons_self, rfl, rfl, rfl, rfl⟩
  | some last =>
      exact ⟨last, List.mem_cons_of_mem _ (List.mem_of_getLast? found), rfl, rfl, rfl, rfl⟩

theorem Told.fitting {emitted last : Event} (told : Told emitted last)
    (fitting : last.Fitting) : emitted.Fitting := by
  rw [Event.Fitting, told.op, told.after]
  exact fitting

/-- The events of one order are emitted by increasing seq. -/
def InSeqOrderOf (orderId : String) (emitted : List Emission) : Prop :=
  emitted.Pairwise fun earlier later =>
    earlier.event.orderId = orderId → later.event.orderId = orderId →
      earlier.event.seq < later.event.seq

theorem InSeqOrder.of {emitted : List Emission} (inOrder : InSeqOrder emitted)
    (orderId : String) : InSeqOrderOf orderId emitted := by
  refine inOrder.imp ?_
  intro earlier later before own ownToo
  exact before (own.trans ownToo.symm)

theorem InSeqOrderOf.increasing {orderId : String} {emitted : List Emission}
    (inOrder : InSeqOrderOf orderId emitted) :
    Paging.Increasing Event.seq (updatesOf Event.orderId orderId (emitted.map Emission.event)) := by
  rw [Paging.Increasing, updatesOf, List.pairwise_filter, List.pairwise_map]
  refine inOrder.imp ?_
  intro earlier later before own ownToo
  exact before (of_decide_eq_true own) (of_decide_eq_true ownToo)

namespace CohesionBuffer

variable {windows : Windows} {actions : List BufferAction} {buffer : CohesionBuffer}

theorem members_le_of_reached
    (increasing : Paging.Increasing Event.seq (addedEvents actions))
    (reached : exec (step windows) {} actions = some buffer) :
    (∀ entry ∈ buffer.held, ∀ member ∈ entry.members, member.seq ≤ entry.latest.seq) ∧
      ∀ emission ∈ buffer.emitted,
        ∀ member ∈ emission.members, member.seq ≤ emission.event.seq := by
  revert increasing
  refine exec_induction (motive := fun actions buffer =>
    Paging.Increasing Event.seq (addedEvents actions) →
      (∀ entry ∈ buffer.held, ∀ member ∈ entry.members, member.seq ≤ entry.latest.seq) ∧
        ∀ emission ∈ buffer.emitted,
          ∀ member ∈ emission.members, member.seq ≤ emission.event.seq) ?_ ?_ reached
  · intro _
    exact ⟨by simp [held], by simp⟩
  · intro actions middle action finish before soFar stepped increasing
    rw [addedEvents_snoc, Paging.Increasing, List.pairwise_append] at increasing
    obtain ⟨entries, emissions⟩ := soFar increasing.1
    refine entries_kept
      (fun entry => ∀ member ∈ entry.members, member.seq ≤ entry.latest.seq)
      (fun emission => ∀ member ∈ emission.members, member.seq ≤ emission.event.seq)
      stepped ?_ ?_ ?_ (fun _ ordered => ordered) entries emissions
    · intro event _ member only
      rw [List.mem_singleton.mp only]
      exact le_rfl
    · intro event _ _ timer seen member only
      rw [List.mem_singleton.mp only]
      exact le_rfl
    · intro event existing adds _ stored _ seen member merged
      rcases List.mem_append.mp merged with earlier | last
      · have inside : existing ∈ middle.held :=
          (held_pending stored).mem_iff.mpr List.mem_cons_self
        have known := (members_of_reached before).mem_iff.mp
          (List.mem_append_left _ (List.mem_flatMap.mpr ⟨existing, inside, earlier⟩))
        exact (increasing.2.2 member known event (by simp [adds, BufferAction.added?])).le
      · rw [List.mem_singleton.mp last]
        exact le_rfl

theorem held_of_one_order (reached : exec (step windows) {} actions = some buffer) :
    ∀ entry ∈ buffer.held, ∀ member ∈ entry.members,
      member.orderId = entry.latest.orderId := by
  have named := entries_induction
    (fun entry => ∀ member ∈ entry.members, member.orderId = entry.latest.orderId)
    (fun _ => True) (fun _ => trivial) (by simp [Pending.opened]) ?_ (fun _ _ => trivial)
    reached
  · exact named.1
  · intro existing event seen same named member merged
    rcases List.mem_append.mp merged with earlier | added
    · exact (named member earlier).trans same
    · rw [List.mem_singleton.mp added]
      rfl

theorem emission_of_added (reached : exec (step windows) {} actions = some buffer)
    {event : Event} (added : event ∈ addedEvents actions) :
    (∃ entry ∈ buffer.held, event ∈ entry.members) ∨
      ∃ emission ∈ buffer.emitted, event ∈ emission.members ∧
        emission.event.orderId = event.orderId := by
  rcases List.mem_append.mp ((members_of_reached reached).mem_iff.mpr added) with held | gone
  · exact Or.inl (List.mem_flatMap.mp held)
  · obtain ⟨emission, emitted, inside⟩ := List.mem_flatMap.mp gone
    exact Or.inr ⟨emission, emitted, inside,
      (emissions_of_one_order reached emission emitted event inside).symm⟩

theorem added_of_emitted (reached : exec (step windows) {} actions = some buffer)
    {emission : Emission} (emitted : emission ∈ buffer.emitted) :
    ∃ last ∈ emission.members, last ∈ addedEvents actions ∧ Told emission.event last := by
  obtain ⟨last, inside, told⟩ := (emissions_stand_for reached emission emitted).told
  refine ⟨last, inside, ?_, told⟩
  exact (members_of_reached reached).mem_iff.mp
    (List.mem_append_right _ (List.mem_flatMap.mpr ⟨emission, emitted, inside⟩))

/-- Where the events of an order are emitted by increasing seq, a client that applies what
is emitted shows the order as the events added left it at some moment, and every event after
that moment is still held. -/
theorem shows_prefix_of_history (reached : exec (step windows) {} actions = some buffer)
    (increasing : (addedEvents actions).Pairwise fun earlier later => earlier.seq < later.seq)
    (fitting : ∀ event ∈ addedEvents actions, event.Fitting) {orderId : String}
    (inOrder : InSeqOrderOf orderId buffer.emitted) (orders : Orders) :
    ∃ shown waiting,
      updatesOf Event.orderId orderId (addedEvents actions) = shown ++ waiting ∧
      ((buffer.emitted.map Emission.event).foldl applyEvent orders).get? orderId =
        (shown.foldl applyEvent orders).get? orderId ∧
      ∀ event ∈ waiting, ∃ entry ∈ buffer.held, event ∈ entry.members := by
  have sent : ∀ event ∈ buffer.emitted.map Emission.event, event.Fitting := by
    intro event member
    obtain ⟨emission, emitted, rfl⟩ := List.mem_map.mp member
    obtain ⟨last, -, added, told⟩ := added_of_emitted reached emitted
    exact told.fitting (fitting last added)
  rw [lastWrite_events.get_foldl sent]
  cases ends : (updatesOf Event.orderId orderId
      (buffer.emitted.map Emission.event)).getLast? with
  | none =>
      refine ⟨[], _, rfl, rfl, ?_⟩
      intro event member
      obtain ⟨added, named⟩ := mem_updatesOf.mp member
      rcases emission_of_added reached added with held | ⟨emission, emitted, -, same⟩
      · exact held
      · have seen : emission.event ∈ updatesOf Event.orderId orderId
            (buffer.emitted.map Emission.event) :=
          mem_updatesOf.mpr ⟨List.mem_map_of_mem emitted, same.trans named⟩
        rw [List.getLast?_eq_none_iff.mp ends] at seen
        cases seen
  | some final =>
      have order := inOrder.increasing
      obtain ⟨known, named⟩ := mem_updatesOf.mp (List.mem_of_getLast? ends)
      obtain ⟨emission, emitted, rfl⟩ := List.mem_map.mp known
      obtain ⟨last, -, added, told⟩ := added_of_emitted reached emitted
      have mine : last.orderId = orderId := told.orderId.symm.trans named
      obtain ⟨before, after, split⟩ :=
        List.append_of_mem (mem_updatesOf.mpr ⟨added, mine⟩)
      refine ⟨before ++ [last], after, ?_, ?_, ?_⟩
      · rw [split, List.append_assoc, List.singleton_append]
      · rw [List.foldl_append, List.foldl_cons, List.foldl_nil, ← mine,
          lastWrite_events.own _ last (fitting last added)]
        exact told.after
      · intro event member
        have history : (before ++ last :: after).Pairwise fun earlier later =>
            earlier.seq < later.seq := by
          rw [← split]
          exact increasing.filter _
        have later : last.seq < event.seq :=
          (List.pairwise_cons.mp (List.pairwise_append.mp history).2.1).1 event member
        have listed : event ∈ updatesOf Event.orderId orderId (addedEvents actions) := by
          rw [split]
          exact List.mem_append_right _ (List.mem_cons_of_mem _ member)
        obtain ⟨known, named⟩ := mem_updatesOf.mp listed
        rcases emission_of_added reached known with held | ⟨other, gone, inside, same⟩
        · exact held
        · have seen : other.event ∈ updatesOf Event.orderId orderId
              (buffer.emitted.map Emission.event) :=
            mem_updatesOf.mpr ⟨List.mem_map_of_mem gone, same.trans named⟩
          have bound := order.le_last ends seen
          have within := (members_le_of_reached increasing reached).2 other gone event inside
          rw [told.seq] at bound
          omega

theorem shows_prefix_of_history_of_flushed :
    ∃ buffer, exec (step sampleWindows) {} [.add validated, .expire 0, .add repriced] =
        some buffer ∧
      ∃ shown waiting,
        updatesOf Event.orderId "1"
            (addedEvents [.add validated, .expire 0, .add repriced]) = shown ++ waiting ∧
        ((buffer.emitted.map Emission.event).foldl applyEvent ∅).get? "1" =
          (shown.foldl applyEvent ∅).get? "1" ∧
        ∀ event ∈ waiting, ∃ entry ∈ buffer.held, event ∈ entry.members := by
  have ran : (exec (step sampleWindows) {} [.add validated, .expire 0, .add repriced]).map
      (fun buffer => buffer.emitted.map fun emission =>
        (emission.event.orderId, emission.event.seq)) = some [("1", 1)] := by
    decide +kernel
  obtain ⟨buffer, reached, emitted⟩ := Option.map_eq_some_iff.mp ran
  refine ⟨buffer, reached,
    shows_prefix_of_history reached (by decide +kernel) ?_ (InSeqOrder.of ?_ _) ∅⟩
  · intro event member
    simp only [addedEvents, List.filterMap_cons, List.filterMap_nil, BufferAction.added?,
      List.mem_cons, List.not_mem_nil, or_false] at member
    rcases member with rfl | rfl <;>
      exact iff_of_false (fun equal => by cases equal) (fun equal => by cases equal)
  · rw [inSeqOrder_iff_map, emitted]
    exact List.pairwise_singleton _ _

end CohesionBuffer

namespace Pipeline

/-- The client came when `earlier` had been emitted, and everything emitted `later` that
was not suppressed was queued for it, in order. -/
structure Joined (pipeline : Pipeline) (reader : Reader) (earlier later : List Emission) :
    Prop where
  since : reader.since ≤ pipeline.appended.length
  emitted : pipeline.buffer.emitted = earlier ++ later
  earlier : ∀ emission ∈ earlier, ∀ event ∈ emission.members,
    ∃ draft ∈ pipeline.appended.take reader.since, draft.event = event
  delivered : reader.delivered.Sublist later
  placed : reader.connected = true → ∀ emission ∈ later,
    emission ∈ reader.delivered ∨ emission ∈ pipeline.suppressed

section

variable {windows : Windows} {pipeline next : Pipeline} {actions : List BufferAction}
  {reader : Reader} {earlier later : List Emission}

theorem Joined.keep (joined : pipeline.Joined reader earlier later)
    (appended : pipeline.appended <+: next.appended)
    (buffer : next.buffer.emitted = pipeline.buffer.emitted)
    (suppressed : next.suppressed = pipeline.suppressed) :
    next.Joined reader earlier later := by
  obtain ⟨more, grown⟩ := appended
  constructor
  · rw [← grown, List.length_append]
    exact Nat.le_add_right_of_le joined.since
  · rw [buffer]
    exact joined.emitted
  · rw [← grown, List.take_append_of_le_length joined.since]
    exact joined.earlier
  · exact joined.delivered
  · rw [suppressed]
    exact joined.placed

theorem Joined.advance (joined : pipeline.Joined reader earlier later)
    (present : pipeline.reader = some reader) {bufferAction : BufferAction}
    {remaining : Option Event} {buffer : CohesionBuffer}
    (stepped : CohesionBuffer.step windows pipeline.buffer bufferAction = some buffer)
    {after : Reader}
    (found : ({ pipeline with handed := remaining, buffer }.broadcast
      (buffer.emitted.drop pipeline.buffer.emitted.length)).reader = some after) :
    ∃ later, ({ pipeline with handed := remaining, buffer }.broadcast
      (buffer.emitted.drop pipeline.buffer.emitted.length)).Joined after earlier later := by
  rcases CohesionBuffer.emitted_step stepped with quiet | ⟨emission, -, emitted⟩
  · rw [quiet, List.drop_length, broadcast_nil] at found ⊢
    cases present.symm.trans found
    exact ⟨later, joined.keep List.prefix_rfl quiet rfl⟩
  · rw [emitted, List.drop_left] at found ⊢
    refine ⟨later ++ [emission], ?_⟩
    have grown : buffer.emitted = earlier ++ (later ++ [emission]) := by
      rw [emitted, joined.emitted, List.append_assoc]
    unfold broadcast at found ⊢
    split at found
    · rename_i engaged
      rw [if_pos engaged]
      cases present.symm.trans found
      refine ⟨joined.since, grown, joined.earlier,
        joined.delivered.trans (List.sublist_append_left _ _), ?_⟩
      intro connected other member
      rcases List.mem_append.mp member with before | now
      · exact (joined.placed connected other before).imp id (List.mem_append_left _)
      · exact Or.inr (List.mem_append_right _ now)
    · rename_i running
      rw [if_neg running]
      rw [present] at found
      cases found
      by_cases connected : reader.connected = true
      · have delivered := delivered_put connected [emission]
        have since : (reader.put [emission]).since = reader.since := by
          rw [Reader.put, if_pos connected]
        constructor
        · rw [since]
          exact joined.since
        · exact grown
        · rw [since]
          exact joined.earlier
        · rw [delivered]
          exact joined.delivered.append_right _
        · intro _ other member
          rw [delivered]
          rcases List.mem_append.mp member with before | now
          · exact (joined.placed connected other before).imp (List.mem_append_left _) id
          · exact Or.inl (List.mem_append_right _ now)
      · have unmoved : reader.put [emission] = reader := by rw [Reader.put, if_neg connected]
        change Joined _ (reader.put [emission]) _ _
        rw [unmoved]
        refine ⟨joined.since, grown, joined.earlier,
          joined.delivered.trans (List.sublist_append_left _ _), ?_⟩
        exact fun yes => absurd yes connected

theorem joined_step {action : PipelineAction} (projected : Projected windows pipeline actions)
    (joined : ∀ reader, pipeline.reader = some reader →
      ∃ earlier later, pipeline.Joined reader earlier later)
    (stepped : Pipeline.step windows pipeline action = some next) :
    ∀ reader, next.reader = some reader →
      ∃ earlier later, next.Joined reader earlier later := by
  intro reader found
  cases step_cases stepped with
  | appended _ _ | unconfirmed _ _ =>
      obtain ⟨earlier, later, before⟩ := joined reader found
      exact ⟨earlier, later, before.keep (List.prefix_append _ _) rfl rfl⟩
  | failed _ | engaged | released =>
      obtain ⟨earlier, later, before⟩ := joined reader found
      exact ⟨earlier, later, before.keep List.prefix_rfl rfl rfl⟩
  | advanced does moved =>
      obtain ⟨before, present⟩ := reader_of_broadcast found
      obtain ⟨earlier, later, soFar⟩ := joined before present
      exact ⟨earlier, soFar.advance present moved found⟩
  | subscribed _ =>
      cases found
      refine ⟨pipeline.buffer.emitted, [], Nat.le_refl _, (List.append_nil _).symm, ?_,
        List.Sublist.refl _, fun _ _ member => absurd member List.not_mem_nil⟩
      intro emission emitted event inside
      rw [List.take_length]
      exact projected.sound event (projected.emission_added emitted inside)
  | @received before emission rest present queue =>
      cases found
      obtain ⟨earlier, later, soFar⟩ := joined before present
      have same : before.received ++ [emission] ++ rest = before.delivered := by
        rw [Reader.delivered, queue, List.append_assoc, List.singleton_append]
      refine ⟨earlier, later, soFar.since, soFar.emitted, soFar.earlier, ?_, ?_⟩
      · rw [Reader.delivered, same]
        exact soFar.delivered
      · rw [Reader.delivered, same]
        exact soFar.placed
  | @disconnected before present =>
      cases found
      obtain ⟨earlier, later, soFar⟩ := joined before present
      refine ⟨earlier, later, soFar.since, soFar.emitted, soFar.earlier, ?_, ?_⟩
      · rw [Reader.delivered, List.append_nil]
        exact (List.sublist_append_left _ _).trans soFar.delivered
      · intro connected
        cases connected

theorem Projected.increasing_added (projected : Projected windows pipeline actions)
    (increasing : Paging.Increasing Event.seq (addedEvents actions)) {action : PipelineAction}
    {bufferAction : BufferAction} {remaining : Option Event}
    (does : pipeline.BufferStep action bufferAction remaining) :
    Paging.Increasing Event.seq (addedEvents (actions ++ [bufferAction])) := by
  have quiet (none : bufferAction.added? = none) :
      Paging.Increasing Event.seq (addedEvents (actions ++ [bufferAction])) := by
    rw [addedEvents_snoc, none, Option.toList_none, List.append_nil]
    exact increasing
  cases action with
  | add =>
      obtain ⟨-, event, handed, rfl⟩ := does
      rw [addedEvents_snoc]
      refine List.pairwise_append.mpr ⟨increasing, List.pairwise_singleton _ _, ?_⟩
      intro earlier added last isLast
      rw [List.mem_singleton.mp isLast]
      exact (projected.handed event handed).2 earlier added
  | expire timer => exact quiet (by rw [does.2]; rfl)
  | flushAll => exact quiet (by rw [does.2]; rfl)
  | drain flush => exact quiet (by rw [does.2]; rfl)
  | _ => exact does.elim

theorem joined_of_reached {log : EventLog} {tail : Tail} {taken : List PipelineAction}
    (reached : exec (step windows) { log, tail } taken = some pipeline) :
    ∃ actions, Projected windows pipeline actions ∧
      Paging.Increasing Event.seq (addedEvents actions) ∧
      ∀ reader, pipeline.reader = some reader →
        ∃ earlier later, pipeline.Joined reader earlier later := by
  refine exec_invariant (motive := fun pipeline => ∃ actions,
    Projected windows pipeline actions ∧
      Paging.Increasing Event.seq (addedEvents actions) ∧
      ∀ reader, pipeline.reader = some reader →
        ∃ earlier later, pipeline.Joined reader earlier later) ?_ ?_ reached
  · refine ⟨[], projected_init log tail, List.Pairwise.nil, ?_⟩
    intro reader found
    cases found
  · rintro middle action finish ⟨actions, projected, increasing, joined⟩ stepped
    obtain ⟨more, onward, taken⟩ := projected.onward stepped
    refine ⟨_, onward, ?_, joined_step projected joined stepped⟩
    rcases taken with rfl | ⟨bufferAction, remaining, rfl, does⟩
    · rw [List.append_nil]
      exact increasing
    · exact projected.increasing_added increasing does

end

def shown (orders : Orders) (drafts : List Draft) : Orders :=
  drafts.foldl (fun orders draft => applyEvent orders draft.event) orders

section

variable {windows : Windows} {pipeline : Pipeline} {actions : List BufferAction}
  {reader : Reader} {earlier later : List Emission} {orderId : String} {newest : Draft}

theorem Projected.increasing (projected : Projected windows pipeline actions) :
    Paging.Increasing Draft.seq pipeline.appended := projected.ordered

/-- What the newest event of an order went out with says what that event says. -/
theorem Projected.newest_emitted (projected : Projected windows pipeline actions)
    (increasing : Paging.Increasing Event.seq (addedEvents actions))
    (last : (AuditTrail.eventsOf orderId pipeline.appended).getLast? = some newest)
    (unhanded : ∀ event, pipeline.handed = some event → event.orderId ≠ orderId)
    (flushed : ∀ entry ∈ pipeline.buffer.held, entry.latest.orderId ≠ orderId)
    (confirmed : newest.event ∉ pipeline.unconfirmed) :
    ∃ emission ∈ pipeline.buffer.emitted, newest.event ∈ emission.members ∧
      Told emission.event newest.event := by
  obtain ⟨member, named⟩ := mem_updatesOf.mp (List.mem_of_getLast? last)
  have added : newest.event ∈ addedEvents actions := by
    rcases projected.complete newest member with added | handed | lost
    · exact added
    · exact absurd named (unhanded newest.event handed)
    · exact absurd lost confirmed
  rcases CohesionBuffer.emission_of_added projected.reached added with
    ⟨entry, held, inside⟩ | ⟨emission, emitted, inside, own⟩
  · have same := CohesionBuffer.held_of_one_order projected.reached entry held _ inside
    exact absurd (same.symm.trans named) (flushed entry held)
  · refine ⟨emission, emitted, inside, ?_⟩
    obtain ⟨final, merged, addedToo, told⟩ :=
      CohesionBuffer.added_of_emitted projected.reached emitted
    obtain ⟨draft, known, rfl⟩ := projected.sound final addedToo
    have mine : draft.args.orderId = orderId := told.orderId.symm.trans (own.trans named)
    have events : Paging.Increasing Draft.seq
        (AuditTrail.eventsOf orderId pipeline.appended) := projected.increasing.filter _
    have atMost : draft.seq ≤ newest.seq :=
      events.le_last last (mem_updatesOf.mpr ⟨known, mine⟩)
    have atLeast : newest.seq ≤ draft.seq := by
      have bound := (CohesionBuffer.members_le_of_reached increasing
        projected.reached).2 emission emitted newest.event inside
      rw [told.seq] at bound
      exact bound
    rw [projected.increasing.eq_of_key member known (le_antisymm atLeast atMost)]
    exact told

theorem Projected.emission_told (projected : Projected windows pipeline actions)
    {emission : Emission} (emitted : emission ∈ pipeline.buffer.emitted) :
    ∃ draft ∈ pipeline.appended, Told emission.event draft.event := by
  obtain ⟨last, -, added, told⟩ := CohesionBuffer.added_of_emitted projected.reached emitted
  obtain ⟨draft, known, rfl⟩ := projected.sound last added
  exact ⟨draft, known, told⟩

theorem Projected.emission_le_newest (projected : Projected windows pipeline actions)
    (last : (AuditTrail.eventsOf orderId pipeline.appended).getLast? = some newest)
    {emission : Emission} (emitted : emission ∈ pipeline.buffer.emitted)
    (own : emission.event.orderId = orderId) : emission.event.seq ≤ newest.seq := by
  obtain ⟨draft, known, told⟩ := projected.emission_told emitted
  have events : Paging.Increasing Draft.seq
      (AuditTrail.eventsOf orderId pipeline.appended) := projected.increasing.filter _
  rw [told.seq]
  exact events.le_last last (mem_updatesOf.mpr ⟨known, told.orderId.symm.trans own⟩)

theorem unheard {received : List Emission}
    (silent : ∀ emission ∈ received, emission.event.orderId ≠ orderId) :
    updatesOf Event.orderId orderId (received.map Emission.event) = [] := by
  apply LastWrite.updatesOf_eq_nil
  intro event member
  obtain ⟨emission, got, rfl⟩ := List.mem_map.mp member
  exact silent emission got

/-- Of an order whose newest event was emitted before the client came, the client hears
nothing. -/
theorem Joined.silent (joined : pipeline.Joined reader earlier later)
    (projected : Projected windows pipeline actions)
    (inOrder : InSeqOrderOf orderId pipeline.buffer.emitted)
    (last : (AuditTrail.eventsOf orderId pipeline.appended).getLast? = some newest)
    {emission : Emission} (old : emission ∈ earlier)
    (told : Told emission.event newest.event) :
    ∀ other ∈ reader.delivered, other.event.orderId ≠ orderId := by
  intro other queued own
  obtain ⟨-, named⟩ := mem_updatesOf.mp (List.mem_of_getLast? last)
  have late : other ∈ later := joined.delivered.subset queued
  rw [joined.emitted, InSeqOrderOf, List.pairwise_append] at inOrder
  have rises := inOrder.2.2 emission old other late (told.orderId.trans named) own
  have bound := projected.emission_le_newest last
    (by rw [joined.emitted]; exact List.mem_append_right _ late) own
  have same : emission.event.seq = newest.seq := told.seq
  omega

theorem Projected.last_taken (projected : Projected windows pipeline actions)
    (last : (AuditTrail.eventsOf orderId pipeline.appended).getLast? = some newest)
    {since : Nat} {draft : Draft} (taken : draft ∈ pipeline.appended.take since)
    (same : draft.event = newest.event) :
    (AuditTrail.eventsOf orderId (pipeline.appended.take since)).getLast? = some newest := by
  obtain ⟨member, named⟩ := mem_updatesOf.mp (List.mem_of_getLast? last)
  have equal : draft = newest :=
    projected.increasing.eq_of_key (List.mem_of_mem_take taken) member
      (congrArg Event.seq same)
  have events : Paging.Increasing Draft.seq
      (AuditTrail.eventsOf orderId pipeline.appended) := projected.increasing.filter _
  have fewer : (AuditTrail.eventsOf orderId (pipeline.appended.take since)).Sublist
      (AuditTrail.eventsOf orderId pipeline.appended) := (List.take_sublist _ _).filter _
  have kept : Paging.Increasing Draft.seq
      (AuditTrail.eventsOf orderId (pipeline.appended.take since)) := events.sublist fewer
  refine kept.getLast?_of_greatest (mem_updatesOf.mpr ⟨equal ▸ taken, named⟩) ?_
  intro other known
  exact events.le_last last (fewer.subset known)

/-- Nothing of the order is on its way to the client, and its newest event was neither lost
nor suppressed. -/
structure Settled (pipeline : Pipeline) (reader : Reader) (orderId : String) : Prop where
  connected : reader.connected = true
  queued : ∀ emission ∈ reader.queue, emission.event.orderId ≠ orderId
  handed : ∀ event, pipeline.handed = some event → event.orderId ≠ orderId
  flushed : ∀ entry ∈ pipeline.buffer.held, entry.latest.orderId ≠ orderId
  told : ∀ newest, (AuditTrail.eventsOf orderId pipeline.appended).getLast? = some newest →
    newest.event ∉ pipeline.unconfirmed ∧
      ∀ emission ∈ pipeline.suppressed, newest.event ∉ emission.members

theorem Settled.mem_received (settled : pipeline.Settled reader orderId) {emission : Emission}
    (delivered : emission ∈ reader.delivered) (own : emission.event.orderId = orderId) :
    emission ∈ reader.received :=
  (List.mem_append.mp delivered).resolve_right fun queued => settled.queued emission queued own

/-- Whatever the client heard, the newest event of the order was the last of it. -/
theorem Joined.shows_newest (joined : pipeline.Joined reader earlier later)
    (projected : Projected windows pipeline actions)
    (increasing : Paging.Increasing Event.seq (addedEvents actions))
    (fitting : ∀ draft ∈ pipeline.appended, draft.args.Fitting)
    (inOrder : InSeqOrderOf orderId pipeline.buffer.emitted)
    (settled : pipeline.Settled reader orderId) (orders : Orders) :
    ((reader.received.map Emission.event).foldl applyEvent
        (shown orders (pipeline.appended.take reader.since))).get? orderId =
      (shown orders pipeline.appended).get? orderId := by
  have heard : reader.received.Sublist reader.delivered := List.sublist_append_left _ _
  have within : reader.received.Sublist pipeline.buffer.emitted := by
    rw [joined.emitted]
    exact heard.trans (joined.delivered.trans (List.sublist_append_right _ _))
  have sent : ∀ event ∈ reader.received.map Emission.event, event.Fitting := by
    intro event member
    obtain ⟨emission, got, rfl⟩ := List.mem_map.mp member
    obtain ⟨draft, known, tale⟩ := projected.emission_told (within.subset got)
    refine tale.fitting (Iff.trans (fitting draft known) ?_)
    exact Option.map_eq_none_iff.symm
  have early : ∀ draft ∈ pipeline.appended.take reader.since, draft.args.Fitting :=
    fun draft member => fitting draft (List.mem_of_mem_take member)
  rw [lastWrite_events.get_foldl sent, shown, shown,
    Snapshot.get?_foldl_applyEvent _ early, Snapshot.get?_foldl_applyEvent _ fitting]
  cases last : (AuditTrail.eventsOf orderId pipeline.appended).getLast? with
  | none =>
      have absent : AuditTrail.eventsOf orderId pipeline.appended = [] :=
        List.getLast?_eq_none_iff.mp last
      have before : AuditTrail.eventsOf orderId (pipeline.appended.take reader.since) = [] :=
        List.sublist_nil.mp (absent ▸ (List.take_sublist _ _).filter _)
      rw [unheard, before]
      · rfl
      · intro emission got own
        obtain ⟨draft, known, tale⟩ := projected.emission_told (within.subset got)
        have mine : draft ∈ AuditTrail.eventsOf orderId pipeline.appended :=
          mem_updatesOf.mpr ⟨known, tale.orderId.symm.trans own⟩
        rw [absent] at mine
        cases mine
  | some newest =>
      obtain ⟨confirmed, unsuppressed⟩ := settled.told newest last
      obtain ⟨emission, emitted, inside, tale⟩ := projected.newest_emitted increasing last
        settled.handed settled.flushed confirmed
      obtain ⟨-, named⟩ := mem_updatesOf.mp (List.mem_of_getLast? last)
      have after : newest.canonAfter = emission.event.after := tale.after.symm
      rw [Option.map_some, Option.getD_some, after]
      rw [joined.emitted] at emitted
      rcases List.mem_append.mp emitted with old | new
      · have silent := joined.silent projected inOrder last old tale
        obtain ⟨draft, known, same⟩ := joined.earlier emission old newest.event inside
        rw [unheard fun other got => silent other (heard.subset got),
          projected.last_taken last known same, List.getLast?_nil, Option.map_none,
          Option.getD_none, Option.map_some, Option.getD_some, after]
      · have got : emission ∈ reader.received := by
          refine settled.mem_received ?_ (tale.orderId.trans named)
          refine (joined.placed settled.connected emission new).resolve_right ?_
          intro hidden
          exact unsuppressed emission hidden inside
        have rises : Paging.Increasing Event.seq (updatesOf Event.orderId orderId
            (reader.received.map Emission.event)) :=
          inOrder.increasing.sublist ((within.map Emission.event).filter _)
        have ends : (updatesOf Event.orderId orderId
            (reader.received.map Emission.event)).getLast? = some emission.event := by
          refine rises.getLast?_of_greatest
            (mem_updatesOf.mpr ⟨List.mem_map_of_mem got, tale.orderId.trans named⟩) ?_
          intro event known
          obtain ⟨listed, own⟩ := mem_updatesOf.mp known
          obtain ⟨other, received, rfl⟩ := List.mem_map.mp listed
          rw [tale.seq]
          exact projected.emission_le_newest last (within.subset received) own
        rw [ends]
        rfl

/-- A client that started from the orders as the events stored by then left them shows an
order as the newest event left it, once nothing of the order is on its way any more:
whatever the kill-switch suppressed and whichever appends raised, if not that newest event,
and as long as the events of the order went out by increasing seq. -/
theorem live_view_catches_up {log : EventLog} {tail : Tail} {taken : List PipelineAction}
    (reached : exec (step windows) { log, tail } taken = some pipeline)
    (fitting : ∀ draft ∈ pipeline.appended, draft.args.Fitting)
    (inOrder : InSeqOrderOf orderId pipeline.buffer.emitted)
    (present : pipeline.reader = some reader) (settled : pipeline.Settled reader orderId)
    (orders : Orders) :
    ((reader.received.map Emission.event).foldl applyEvent
        (shown orders (pipeline.appended.take reader.since))).get? orderId =
      (shown orders pipeline.appended).get? orderId := by
  obtain ⟨actions, projected, increasing, joins⟩ := joined_of_reached reached
  obtain ⟨earlier, later, joined⟩ := joins reader present
  exact joined.shows_newest projected increasing fitting inOrder settled orders

end

def suppressedThenShown : List PipelineAction :=
  [.subscribe, .engage, .append statusArgs "first" sampleTime, .add, .expire 0, .release,
    .append statusArgs "second" sampleTime, .add, .expire 1, .receive]

theorem live_view_catches_up_of_suppressed :
    ∃ pipeline reader,
      exec (step CohesionBuffer.sampleWindows) { log := [], tail := ⟨0, auditGenesisHash⟩ }
          suppressedThenShown = some pipeline ∧
        pipeline.reader = some reader ∧ reader.received.length = 1 ∧
        ((reader.received.map Emission.event).foldl applyEvent
            (shown ∅ (pipeline.appended.take reader.since))).get? "1" =
          (shown ∅ pipeline.appended).get? "1" := by
  have ran : (exec (step CohesionBuffer.sampleWindows)
      { log := [], tail := ⟨0, auditGenesisHash⟩ } suppressedThenShown).map
        (fun pipeline => (pipeline.buffer.emitted.map fun emission =>
            (emission.event.orderId, emission.event.seq),
          pipeline.appended.map fun draft => (draft.seq, draft.args.orderId,
            decide (draft.args.op = .delete), draft.args.after.isNone))) =
      some ([("1", 1), ("1", 2)], [(1, "1", false, false), (2, "1", false, false)]) := by
    decide +kernel
  have left : (exec (step CohesionBuffer.sampleWindows)
      { log := [], tail := ⟨0, auditGenesisHash⟩ } suppressedThenShown).map
        (fun pipeline => (pipeline.handed.isNone, pipeline.unconfirmed.length,
          pipeline.buffer.held.length,
          pipeline.suppressed.map fun emission => emission.members.map (·.seq))) =
      some (true, 0, 0, [[1]]) := by
    decide +kernel
  have heard : (exec (step CohesionBuffer.sampleWindows)
      { log := [], tail := ⟨0, auditGenesisHash⟩ } suppressedThenShown).map
        (fun pipeline => pipeline.reader.map fun reader =>
          (reader.connected, reader.queue.length, reader.received.length)) =
      some (some (true, 0, 1)) := by
    decide +kernel
  obtain ⟨pipeline, reached, facts⟩ := Option.map_eq_some_iff.mp ran
  obtain ⟨emitted, appended⟩ := Prod.mk.inj facts
  rw [reached, Option.map_some, Option.some.injEq] at left heard
  simp only [Prod.mk.injEq, List.length_eq_zero_iff, Option.isNone_iff_eq_none] at left
  obtain ⟨idle, confirmed, drained, suppressed⟩ := left
  obtain ⟨reader, present, counts⟩ := Option.map_eq_some_iff.mp heard
  simp only [Prod.mk.injEq, List.length_eq_zero_iff] at counts
  obtain ⟨connected, empty, one⟩ := counts
  have known (draft : Draft) (member : draft ∈ pipeline.appended) :
      draft.args.orderId = "1" ∧ draft.args.op ≠ .delete ∧ draft.args.after ≠ none := by
    have listed := List.mem_map_of_mem (f := fun draft : Draft => (draft.seq,
      draft.args.orderId, decide (draft.args.op = .delete), draft.args.after.isNone)) member
    rw [appended] at listed
    simp only [List.mem_cons, Prod.mk.injEq, List.not_mem_nil, or_false,
      decide_eq_false_iff_not, Option.isNone_eq_false_iff, Option.isSome_iff_ne_none] at listed
    rcases listed with ⟨-, own⟩ | ⟨-, own⟩ <;> exact own
  refine ⟨pipeline, reader, reached, present, one, live_view_catches_up reached ?_
    (InSeqOrder.of ?_ "1") present ⟨connected, ?_, ?_, ?_, ?_⟩ ∅⟩
  · intro draft member
    exact iff_of_false (known draft member).2.1 (known draft member).2.2
  · rw [CohesionBuffer.inSeqOrder_iff_map, emitted]
    decide
  · rw [empty]
    exact fun _ member => absurd member List.not_mem_nil
  · rw [idle]
    exact fun _ handed => by cases handed
  · rw [drained]
    exact fun _ member => absurd member List.not_mem_nil
  · intro newest last
    have all : AuditTrail.eventsOf "1" pipeline.appended = pipeline.appended :=
      List.filter_eq_self.mpr fun draft member => decide_eq_true (known draft member).1
    have ends : (pipeline.appended.getLast?.map (·.seq)) = some 2 := by
      have listed := congrArg (fun list => list.getLast?.map Prod.fst) appended
      simpa using listed
    rw [← all, last, Option.map_some, Option.some.injEq] at ends
    refine ⟨by rw [confirmed]; exact List.not_mem_nil, ?_⟩
    intro emission hidden inside
    have listed := List.mem_map_of_mem
      (f := fun emission : Emission => emission.members.map (·.seq)) hidden
    rw [suppressed, List.mem_singleton] at listed
    have carried := List.mem_map_of_mem (f := Event.seq) inside
    rw [listed, List.mem_singleton] at carried
    exact absurd (carried.symm.trans ends) (by decide)

end Pipeline

end OrderStream
