import OrderStream.Delivery.Dashboard

namespace OrderStream

open Transition

namespace Site

variable {site next : Site}

/-- `last` is the last event that came over a stream.  Of the later events exactly those
of the last page were applied. -/
structure Knows (site : Site) (last : Draft) : Prop where
  member : last ∈ site.appended
  named : site.dashboard.lastEventId = some last.eventId
  since : site.dashboard.headSeq ≤ last.seq
  covered : ∀ draft ∈ site.appended, site.dashboard.headSeq < draft.seq →
    draft.seq ≤ last.seq → site.Applied draft
  paged : ∀ draft ∈ site.appended, last.seq < draft.seq →
    (site.Applied draft ↔
      draft ∈ (later last (site.appended.take site.fetched)).take 2000)

/-- The queue of an open stream holds the events from a position on, and the dashboard has
caught up with those before it. -/
structure Listening (site : Site) (position : Nat) : Prop where
  fetched : site.fetched ≤ position
  within : position ≤ site.appended.length
  queue : site.dashboard.queue = (site.appended.drop position).map Draft.event
  before : ∀ draft ∈ site.appended.take position,
    site.dashboard.headSeq < draft.seq → site.Applied draft
  behind : ∀ draft ∈ site.appended.drop position,
    site.dashboard.headSeq ≤ draft.seq ∧ ¬site.Applied draft

structure Tracks (site : Site) : Prop where
  sound : site.Sound
  known : ∀ doc ∈ site.dashboard.applied,
    ∃ draft ∈ site.appended, doc.get "event_id" = .str draft.eventId
  fetched : site.fetched ≤ site.appended.length
  loading : site.dashboard.phase = .loading → site.dashboard.lastEventId = none
  head : site.dashboard.phase ≠ .loading → site.dashboard.headSeq ≤ site.tail.seq
  silent : site.dashboard.lastEventId = none → site.dashboard.applied = []
  knows : ∀ lastEventId, site.dashboard.lastEventId = some lastEventId →
    ∃ last, site.Knows last
  listening : site.dashboard.phase = .opened → ∃ position, site.Listening position

theorem Knows.congr {last : Draft} (knows : site.Knows last)
    (appended : next.appended = site.appended) (fetched : next.fetched = site.fetched)
    (headSeq : next.dashboard.headSeq = site.dashboard.headSeq)
    (lastEventId : next.dashboard.lastEventId = site.dashboard.lastEventId)
    (applied : next.dashboard.applied = site.dashboard.applied) : next.Knows last := by
  have same (draft : Draft) : next.Applied draft ↔ site.Applied draft := by
    rw [Applied, Applied, applied]
  constructor
  · rw [appended]
    exact knows.member
  · rw [lastEventId]
    exact knows.named
  · rw [headSeq]
    exact knows.since
  · rw [appended, headSeq]
    intro draft member later below
    exact (same draft).mpr (knows.covered draft member later below)
  · rw [appended, fetched]
    intro draft member later
    rw [same]
    exact knows.paged draft member later

theorem mem_later {last draft : Draft} {drafts : List Draft} :
    draft ∈ later last drafts ↔ draft ∈ drafts ∧ last.seq < draft.seq := by
  simp [later]

theorem Sound.lt_of_split (sound : site.Sound) {position : Nat} {earlier late : Draft}
    (before : earlier ∈ site.appended.take position)
    (behind : late ∈ site.appended.drop position) : earlier.seq < late.seq := by
  have ordered := sound.ordered
  rw [← List.take_append_drop position site.appended] at ordered
  exact (List.pairwise_append.mp ordered).2.2 earlier before late behind

/-- The dashboard has caught up iff the stream is opened in time. -/
theorem caughtUp_iff (tracks : site.Tracks) : site.CaughtUp ↔ site.Bridged .connect := by
  unfold Bridged
  cases named : site.dashboard.lastEventId with
  | none =>
      have nothing (draft : Draft) : ¬site.Applied draft := by
        rintro ⟨doc, member, -⟩
        rw [tracks.silent named] at member
        cases member
      dsimp only
      constructor
      · intro caughtUp draft member
        by_contra above
        exact nothing draft (caughtUp draft member (Int.not_le.mp above))
      · intro quiet draft member above
        exact absurd (quiet draft member) (Int.not_le.mpr above)
  | some lastEventId =>
      obtain ⟨last, knows⟩ := tracks.knows lastEventId named
      have own : last.eventId = lastEventId := Option.some.inj (knows.named.symm.trans named)
      dsimp only
      constructor
      · intro caughtUp other member same
        cases tracks.sound.distinct other member last knows.member (same.trans own.symm)
        have paged : later last site.appended ⊆
            (later last (site.appended.take site.fetched)).take 2000 := by
          intro draft inside
          obtain ⟨stored, above⟩ := mem_later.mp inside
          apply (knows.paged draft stored above).mp
          exact caughtUp draft stored (Int.lt_of_le_of_lt knows.since above)
        constructor
        · have nodup : (later last site.appended).Nodup := by
            apply List.Nodup.filter
            exact tracks.sound.nodup
          exact (List.subperm_of_subset nodup paged).length_le.trans (List.length_take_le _ _)
        · intro draft behind
          by_contra above
          have inside := paged (mem_later.mpr
            ⟨List.mem_of_mem_drop behind, Int.not_le.mp above⟩)
          have before := (mem_later.mp (List.mem_of_mem_take inside)).1
          exact Int.lt_irrefl _ (tracks.sound.lt_of_split before behind)
      · intro bridged draft member above
        obtain ⟨enough, settled⟩ := bridged last knows.member own
        by_cases seen : draft.seq ≤ last.seq
        · exact knows.covered draft member above seen
        · apply (knows.paged draft member (Int.not_le.mp seen)).mpr
          have fewer : (later last (site.appended.take site.fetched)).length ≤ 2000 :=
            ((List.take_sublist _ _).filter _).length_le.trans enough
          rw [List.take_of_length_le fewer]
          refine mem_later.mpr ⟨?_, Int.not_le.mp seen⟩
          rw [← List.take_append_drop site.fetched site.appended] at member
          rcases List.mem_append.mp member with before | behind
          · exact before
          · exact absurd (settled draft behind) seen

theorem Tracks.unheard (tracks : site.Tracks) {draft : Draft}
    (fresh : ∀ stored ∈ site.appended, stored.eventId ≠ draft.eventId) :
    ¬site.Applied draft := by
  rintro ⟨doc, member, named⟩
  obtain ⟨stored, known, same⟩ := tracks.known doc member
  exact fresh stored known (Value.str.inj (same.symm.trans named))

section

variable (dashboard : Dashboard) (event : Event)

@[simp] theorem hear_phase : (dashboard.hear event).phase = dashboard.phase := by
  unfold Dashboard.hear
  split <;> rfl

@[simp] theorem hear_headSeq : (dashboard.hear event).headSeq = dashboard.headSeq := by
  unfold Dashboard.hear
  split <;> rfl

@[simp] theorem hear_lastEventId :
    (dashboard.hear event).lastEventId = dashboard.lastEventId := by
  unfold Dashboard.hear
  split <;> rfl

@[simp] theorem hear_applied : (dashboard.hear event).applied = dashboard.applied := by
  unfold Dashboard.hear
  split <;> rfl

end

theorem Knows.store {last draft : Draft} (tracks : site.Tracks) (knows : site.Knows last)
    (below : ∀ stored ∈ site.appended, stored.seq < draft.seq)
    (unheard : ¬site.Applied draft) (appended : next.appended = site.appended ++ [draft])
    (fetched : next.fetched = site.fetched)
    (dashboard : next.dashboard = site.dashboard.hear draft.event) : next.Knows last := by
  have same (other : Draft) : next.Applied other ↔ site.Applied other := by
    rw [Applied, Applied, dashboard, hear_applied]
  have page : next.appended.take next.fetched = site.appended.take site.fetched := by
    rw [appended, fetched, List.take_append_of_le_length tracks.fetched]
  constructor
  · rw [appended]
    exact List.mem_append_left _ knows.member
  · rw [dashboard, hear_lastEventId]
    exact knows.named
  · rw [dashboard, hear_headSeq]
    exact knows.since
  · rw [appended, dashboard, hear_headSeq]
    intro other member above seen
    rcases List.mem_append.mp member with stored | added
    · exact (same other).mpr (knows.covered other stored above seen)
    · rw [List.mem_singleton.mp added] at seen
      exact absurd (below last knows.member) (Int.not_lt.mpr seen)
  · rw [page, appended]
    intro other member above
    rw [same]
    rcases List.mem_append.mp member with stored | added
    · exact knows.paged other stored above
    · rw [List.mem_singleton.mp added]
      refine iff_of_false unheard ?_
      intro inside
      have stored := List.mem_of_mem_take (mem_later.mp (List.mem_of_mem_take inside)).1
      exact Int.lt_irrefl _ (below draft stored)

theorem Listening.store {position : Nat} {draft : Draft} (listening : site.Listening position)
    (opened : site.dashboard.phase = .opened) (since : site.dashboard.headSeq ≤ draft.seq)
    (unheard : ¬site.Applied draft) (appended : next.appended = site.appended ++ [draft])
    (fetched : next.fetched = site.fetched)
    (dashboard : next.dashboard = site.dashboard.hear draft.event) :
    next.Listening position := by
  have same (other : Draft) : next.Applied other ↔ site.Applied other := by
    rw [Applied, Applied, dashboard, hear_applied]
  constructor
  · rw [fetched]
    exact listening.fetched
  · rw [appended, List.length_append]
    exact Nat.le_add_right_of_le listening.within
  · rw [dashboard, Dashboard.hear, if_pos opened, appended,
      List.drop_append_of_le_length listening.within, List.map_append, listening.queue]
    rfl
  · rw [appended, List.take_append_of_le_length listening.within, dashboard, hear_headSeq]
    intro other member above
    exact (same other).mpr (listening.before other member above)
  · rw [appended, List.drop_append_of_le_length listening.within, dashboard, hear_headSeq]
    intro other member
    rw [same]
    rcases List.mem_append.mp member with stored | added
    · exact listening.behind other stored
    · rw [List.mem_singleton.mp added]
      exact ⟨since, unheard⟩

theorem Tracks.store (tracks : site.Tracks) {draft : Draft} {log : EventLog}
    (taken : site.taken = some draft)
    (inserted : insertOne site.log draft.storageDoc = some log) :
    Tracks { site with
      log
      tail := { site.tail with hash := draft.hash }
      taken := none
      dashboard := site.dashboard.hear draft.event
      appended := site.appended ++ [draft] } := by
  obtain ⟨atTail, below⟩ := tracks.sound.taken draft taken
  have unheard := tracks.unheard (tracks.sound.fresh inserted)
  constructor
  · exact tracks.sound.store taken inserted _
  · intro doc member
    rw [hear_applied] at member
    obtain ⟨stored, known, named⟩ := tracks.known doc member
    exact ⟨stored, List.mem_append_left _ known, named⟩
  · rw [List.length_append]
    exact Nat.le_add_right_of_le tracks.fetched
  · simpa using tracks.loading
  · simpa using tracks.head
  · simpa using tracks.silent
  · intro lastEventId named
    rw [hear_lastEventId] at named
    obtain ⟨last, knows⟩ := tracks.knows lastEventId named
    exact ⟨last, knows.store tracks below unheard rfl rfl rfl⟩
  · intro opened
    rw [hear_phase] at opened
    obtain ⟨position, listening⟩ := tracks.listening opened
    refine ⟨position, listening.store opened ?_ unheard rfl rfl rfl⟩
    rw [atTail]
    exact tracks.head (by simp [opened])

theorem Tracks.connect (tracks : site.Tracks) (connecting : site.dashboard.phase = .connecting)
    (bridged : site.Bridged .connect) :
    Tracks { site with
      dashboard := { site.dashboard with phase := .opened, queue := [] } } := by
  have caughtUp := (caughtUp_iff tracks).mpr bridged
  constructor
  · exact ⟨tracks.sound.stored, tracks.sound.ordered, tracks.sound.distinct,
      tracks.sound.bounded, tracks.sound.taken⟩
  · exact tracks.known
  · exact tracks.fetched
  · intro loading
    cases loading
  · intro _
    exact tracks.head (by simp [connecting])
  · exact tracks.silent
  · intro lastEventId named
    obtain ⟨last, knows⟩ := tracks.knows lastEventId named
    exact ⟨last, knows.congr rfl rfl rfl rfl rfl⟩
  · intro _
    refine ⟨site.appended.length, tracks.fetched, Nat.le_refl _, ?_, ?_, ?_⟩
    · simp
    · intro draft member above
      exact caughtUp draft (List.mem_of_mem_take member) above
    · intro draft member
      simp at member

theorem applied_onChange (draft other : Draft) (rest : List Event) :
    Applied { site with dashboard := site.dashboard.onChange draft.event rest } other ↔
      site.Applied other ∨ draft.eventId = other.eventId := by
  simp only [Applied, Dashboard.onChange, List.mem_append, List.mem_singleton]
  constructor
  · rintro ⟨doc, earlier | rfl, named⟩
    · exact Or.inl ⟨doc, earlier, named⟩
    · exact Or.inr (Value.str.inj named)
  · rintro (⟨doc, earlier, named⟩ | same)
    · exact ⟨doc, Or.inl earlier, named⟩
    · exact ⟨_, Or.inr rfl, congrArg Value.str same⟩

theorem Tracks.receive (tracks : site.Tracks) {event : Event} {rest : List Event}
    (opened : site.dashboard.phase = .opened)
    (queue : site.dashboard.queue = event :: rest) :
    Tracks { site with dashboard := site.dashboard.onChange event rest } := by
  obtain ⟨position, listening⟩ := tracks.listening opened
  have queued := listening.queue
  rw [queue] at queued
  obtain ⟨draft, drafts, behind, rfl, rfl⟩ := List.map_eq_cons_iff.mp queued.symm
  have heard : draft ∈ site.appended.drop position := behind ▸ List.mem_cons_self
  have stored := List.mem_of_mem_drop heard
  have dropped : site.appended.drop (position + 1) = drafts := by
    rw [← List.tail_drop, behind]
    rfl
  have found : site.appended[position]? = some draft := by
    rw [← List.head?_drop, behind]
    rfl
  have taken : site.appended.take (position + 1) = site.appended.take position ++ [draft] := by
    rw [List.take_add_one, found]
    rfl
  have after (other : Draft) (member : other ∈ drafts) : draft.seq < other.seq :=
    tracks.sound.lt_of_split (taken ▸ List.mem_append_right _ List.mem_cons_self)
      (dropped ▸ member)
  have unheard (other : Draft) (member : other ∈ drafts) :
      ¬(site.Applied other ∨ draft.eventId = other.eventId) := by
    have behindOther : other ∈ site.appended.drop position :=
      behind ▸ List.mem_cons_of_mem _ member
    rintro (applied | same)
    · exact (listening.behind other behindOther).2 applied
    · have equal := tracks.sound.distinct draft stored other
        (List.mem_of_mem_drop behindOther) same
      exact Int.lt_irrefl _ (equal ▸ after other member)
  have place (other : Draft) (member : other ∈ site.appended) :
      other ∈ site.appended.take position ∨ other = draft ∨ other ∈ drafts := by
    rw [← List.take_append_drop position site.appended, behind] at member
    exact (List.mem_append.mp member).imp_right List.mem_cons.mp
  constructor
  · exact ⟨tracks.sound.stored, tracks.sound.ordered, tracks.sound.distinct,
      tracks.sound.bounded, tracks.sound.taken⟩
  · intro doc member
    rcases List.mem_append.mp member with earlier | last
    · exact tracks.known doc earlier
    · rw [List.mem_singleton.mp last]
      exact ⟨draft, stored, rfl⟩
  · exact tracks.fetched
  · intro loading
    exact absurd (opened.symm.trans loading) (by decide)
  · exact tracks.head
  · intro silent
    cases silent
  · intro lastEventId named
    refine ⟨draft, stored, rfl, (listening.behind draft heard).1, ?_, ?_⟩
    · intro other member above seen
      rw [applied_onChange]
      rcases place other member with before | rfl | late
      · exact Or.inl (listening.before other before above)
      · exact Or.inr rfl
      · exact absurd (after other late) (Int.not_lt.mpr seen)
    · intro other member late
      rw [applied_onChange]
      rcases place other member with before | rfl | behindIt
      · exact absurd late (Int.lt_asymm (tracks.sound.lt_of_split before heard))
      · exact absurd late (Int.lt_irrefl _)
      · refine iff_of_false (unheard other behindIt) ?_
        intro inside
        have fetched := (mem_later.mp (List.mem_of_mem_take inside)).1
        have before : other ∈ site.appended.take position :=
          (List.take_prefix_take_left listening.fetched).subset fetched
        exact Int.lt_asymm late (tracks.sound.lt_of_split before heard)
  · intro _
    refine ⟨position + 1, Nat.le_succ_of_le listening.fetched, ?_, ?_, ?_, ?_⟩
    · exact (List.getElem?_eq_some_iff.mp found).1
    · rw [dropped]
      rfl
    · rw [taken]
      intro other member above
      rw [applied_onChange]
      rcases List.mem_append.mp member with before | last
      · exact Or.inl (listening.before other before above)
      · rw [List.mem_singleton.mp last]
        exact Or.inr rfl
    · rw [dropped]
      intro other member
      rw [applied_onChange]
      refine ⟨?_, unheard other member⟩
      exact (listening.behind other (behind ▸ List.mem_cons_of_mem _ member)).1

theorem Knows.fetch (tracks : site.Tracks) {last : Draft} (knows : site.Knows last)
    (appended : next.appended = site.appended)
    (fetched : next.fetched = site.appended.length)
    (headSeq : next.dashboard.headSeq = site.dashboard.headSeq)
    (lastEventId : next.dashboard.lastEventId = site.dashboard.lastEventId)
    (applied : next.dashboard.applied = site.dashboard.applied ++
      ((later last site.appended).take 2000).map Draft.storageDoc) : next.Knows last := by
  have shown (draft : Draft) (member : draft ∈ site.appended) : next.Applied draft ↔
      site.Applied draft ∨ draft ∈ (later last site.appended).take 2000 := by
    rw [Applied, applied]
    constructor
    · rintro ⟨doc, inside, named⟩
      rcases List.mem_append.mp inside with earlier | paged
      · exact Or.inl ⟨doc, earlier, named⟩
      · obtain ⟨other, found, rfl⟩ := List.mem_map.mp paged
        have stored := (mem_later.mp (List.mem_of_mem_take found)).1
        rw [other.get_eventId] at named
        rw [tracks.sound.distinct draft member other stored (Value.str.inj named).symm]
        exact Or.inr found
    · rintro (⟨doc, earlier, named⟩ | paged)
      · exact ⟨doc, List.mem_append_left _ earlier, named⟩
      · exact ⟨_, List.mem_append_right _ (List.mem_map_of_mem paged), draft.get_eventId⟩
  constructor
  · rw [appended]
    exact knows.member
  · rw [lastEventId]
    exact knows.named
  · rw [headSeq]
    exact knows.since
  · rw [appended, headSeq]
    intro draft member above seen
    exact (shown draft member).mpr (Or.inl (knows.covered draft member above seen))
  · rw [appended, fetched, List.take_length]
    intro draft member late
    rw [shown draft member, or_iff_right_of_imp]
    intro earlier
    have paged := (knows.paged draft member late).mp earlier
    have longer : later last (site.appended.take site.fetched) <+: later last site.appended :=
      (List.take_prefix _ _).filter _
    exact (longer.take 2000).subset paged

theorem Tracks.fetch (tracks : site.Tracks) {lastEventId : String} {count : Nat}
    {docs : List Doc} (closed : site.dashboard.phase = .closed)
    (named : site.dashboard.lastEventId = some lastEventId)
    (paged : site.page lastEventId = .ok count docs) :
    Tracks { site with
      dashboard := { site.dashboard with
        phase := .connecting
        applied := site.dashboard.applied ++ docs }
      fetched := site.appended.length } := by
  obtain ⟨last, knows⟩ := tracks.knows lastEventId named
  cases named.symm.trans knows.named
  obtain ⟨rfl, -⟩ := tracks.sound.docs_eq knows.member paged
  constructor
  · exact ⟨tracks.sound.stored, tracks.sound.ordered, tracks.sound.distinct,
      tracks.sound.bounded, tracks.sound.taken⟩
  · intro doc member
    rcases List.mem_append.mp member with earlier | found
    · exact tracks.known doc earlier
    · obtain ⟨draft, inside, rfl⟩ := List.mem_map.mp found
      exact ⟨draft, (mem_later.mp (List.mem_of_mem_take inside)).1, draft.get_eventId⟩
  · exact Nat.le_refl _
  · intro loading
    cases loading
  · intro _
    exact tracks.head (by simp [closed])
  · intro silent
    cases silent.symm.trans named
  · intro _ _
    exact ⟨last, knows.fetch tracks rfl rfl rfl rfl rfl⟩
  · intro opened
    cases opened

theorem Tracks.await (tracks : site.Tracks) {tail : Tail} {taken : Option Draft}
    (sound : Sound { site with tail, taken }) (onward : site.tail.seq ≤ tail.seq) :
    Tracks { site with tail, taken } := by
  constructor
  · exact sound
  · exact tracks.known
  · exact tracks.fetched
  · exact tracks.loading
  · intro loaded
    exact Int.le_trans (tracks.head loaded) onward
  · exact tracks.silent
  · intro lastEventId named
    obtain ⟨last, knows⟩ := tracks.knows lastEventId named
    exact ⟨last, knows.congr rfl rfl rfl rfl rfl⟩
  · intro opened
    obtain ⟨position, listening⟩ := tracks.listening opened
    exact ⟨position, listening.fetched, listening.within, listening.queue, listening.before,
      listening.behind⟩

end Site

end OrderStream
