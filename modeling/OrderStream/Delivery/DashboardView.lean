import OrderStream.Delivery.DashboardOrders
import OrderStream.Delivery.DashboardReplay

/-! The dashboard's table of orders after any run of streams and pages. -/

namespace OrderStream

open Transition

namespace Site

open Overwrite

variable {site next : Site} {before earlier paged rest : List Draft} {last draft : Draft}

/-- `last` is the last event that came over a stream.  From a point after the snapshot on,
the events up to a position were applied, those after `last` from a page. -/
structure Replayed (site : Site) (before earlier : List Draft) (last : Draft)
    (paged rest : List Draft) : Prop where
  split : site.appended = before ++ (earlier ++ last :: paged) ++ rest
  passed : ∀ draft ∈ before, draft.seq ≤ site.dashboard.headSeq
  few : paged.length ≤ 2000
  applied : ∀ draft ∈ site.appended,
    site.Applied draft ↔ draft ∈ earlier ++ last :: paged
  net : lastWritten Cell.written site.dashboard.applied =
    lastWritten Cell.written ((earlier ++ last :: paged).map Draft.storageDoc)

/-- An event later than the snapshot never comes: the dashboard asks for later ones. -/
def Lost (site : Site) (last : Draft) : Prop :=
  ∃ draft ∈ site.appended, site.dashboard.headSeq < draft.seq ∧ draft.seq < last.seq ∧
    ¬site.Applied draft

structure Heard (site : Site) (last : Draft) : Prop where
  member : last ∈ site.appended
  named : site.dashboard.lastEventId = some last.eventId
  since : site.dashboard.headSeq ≤ last.seq
  applied : site.Applied last
  replayed : site.Lost last ∨
    ∃ before earlier paged rest, site.Replayed before earlier last paged rest

structure Waiting (site : Site) (old waiting : List Draft) : Prop where
  split : site.appended = old ++ waiting
  queue : site.dashboard.queue = waiting.map Draft.event
  behind : ∀ draft ∈ waiting, site.dashboard.headSeq ≤ draft.seq ∧ ¬site.Applied draft

structure Replays (site : Site) : Prop where
  sound : site.Sound
  known : ∀ doc ∈ site.dashboard.applied,
    ∃ draft ∈ site.appended, doc.get "event_id" = .str draft.eventId
  loading : site.dashboard.phase = .loading → site.dashboard.lastEventId = none
  head : site.dashboard.phase ≠ .loading → site.dashboard.headSeq ≤ site.tail.seq
  silent : site.dashboard.lastEventId = none → site.dashboard.applied = []
  heard : ∀ lastEventId, site.dashboard.lastEventId = some lastEventId →
    ∃ last, site.Heard last
  waiting : site.dashboard.phase = .opened → ∃ old waiting, site.Waiting old waiting

theorem Sound.lt_of_append (sound : site.Sound) {front back : List Draft}
    (split : site.appended = front ++ back) {first second : Draft} (early : first ∈ front)
    (late : second ∈ back) : first.seq < second.seq := by
  have ordered := sound.ordered
  rw [split] at ordered
  exact (List.pairwise_append.mp ordered).2.2 first early second late

theorem Heard.congr (heard : site.Heard last) (appended : next.appended = site.appended)
    (headSeq : next.dashboard.headSeq = site.dashboard.headSeq)
    (lastEventId : next.dashboard.lastEventId = site.dashboard.lastEventId)
    (applied : next.dashboard.applied = site.dashboard.applied) : next.Heard last := by
  have same (draft : Draft) : next.Applied draft ↔ site.Applied draft := by
    rw [Applied, Applied, applied]
  constructor
  · rw [appended]
    exact heard.member
  · rw [lastEventId]
    exact heard.named
  · rw [headSeq]
    exact heard.since
  · exact (same last).mpr heard.applied
  · cases heard.replayed with
    | inl lost =>
        obtain ⟨missed, member, above, below, unheard⟩ := lost
        refine Or.inl ⟨missed, appended ▸ member, headSeq ▸ above, below, ?_⟩
        rw [same]
        exact unheard
    | inr replayed =>
        obtain ⟨before, earlier, paged, rest, replayed⟩ := replayed
        refine Or.inr ⟨before, earlier, paged, rest, ?_⟩
        constructor
        · rw [appended]
          exact replayed.split
        · rw [headSeq]
          exact replayed.passed
        · exact replayed.few
        · rw [appended]
          intro draft member
          rw [same]
          exact replayed.applied draft member
        · rw [applied]
          exact replayed.net

theorem Heard.store (heard : site.Heard last)
    (unheard : ¬site.Applied draft) (appended : next.appended = site.appended ++ [draft])
    (dashboard : next.dashboard = site.dashboard.hear draft.event) : next.Heard last := by
  have same (other : Draft) : next.Applied other ↔ site.Applied other := by
    rw [Applied, Applied, dashboard, hear_applied]
  constructor
  · rw [appended]
    exact List.mem_append_left _ heard.member
  · rw [dashboard, hear_lastEventId]
    exact heard.named
  · rw [dashboard, hear_headSeq]
    exact heard.since
  · exact (same last).mpr heard.applied
  · cases heard.replayed with
    | inl lost =>
        obtain ⟨missed, member, above, below, never⟩ := lost
        refine Or.inl ⟨missed, ?_, ?_, below, ?_⟩
        · rw [appended]
          exact List.mem_append_left _ member
        · rw [dashboard, hear_headSeq]
          exact above
        · rw [same]
          exact never
    | inr replayed =>
        obtain ⟨before, earlier, paged, rest, replayed⟩ := replayed
        refine Or.inr ⟨before, earlier, paged, rest ++ [draft], ?_, ?_, replayed.few, ?_, ?_⟩
        · rw [appended, replayed.split, List.append_assoc]
        · rw [dashboard, hear_headSeq]
          exact replayed.passed
        · rw [appended]
          intro other member
          rw [same]
          rcases List.mem_append.mp member with stored | added
          · exact replayed.applied other stored
          · rw [List.mem_singleton.mp added]
            refine iff_of_false unheard ?_
            intro inside
            refine unheard ((replayed.applied draft ?_).mpr inside)
            rw [replayed.split]
            exact List.mem_append_left _ (List.mem_append_right _ inside)
        · rw [dashboard, hear_applied]
          exact replayed.net

theorem Waiting.store {old waiting : List Draft} (queued : site.Waiting old waiting)
    (opened : site.dashboard.phase = .opened) (since : site.dashboard.headSeq ≤ draft.seq)
    (unheard : ¬site.Applied draft) (appended : next.appended = site.appended ++ [draft])
    (dashboard : next.dashboard = site.dashboard.hear draft.event) :
    next.Waiting old (waiting ++ [draft]) := by
  have same (other : Draft) : next.Applied other ↔ site.Applied other := by
    rw [Applied, Applied, dashboard, hear_applied]
  constructor
  · rw [appended, queued.split, List.append_assoc]
  · rw [dashboard, Dashboard.hear, if_pos opened, List.map_append, queued.queue]
    rfl
  · rw [dashboard, hear_headSeq]
    intro other member
    rw [same]
    rcases List.mem_append.mp member with stored | added
    · exact queued.behind other stored
    · rw [List.mem_singleton.mp added]
      exact ⟨since, unheard⟩

theorem Replays.unheard (replays : site.Replays)
    (fresh : ∀ stored ∈ site.appended, stored.eventId ≠ draft.eventId) :
    ¬site.Applied draft := by
  rintro ⟨doc, member, named⟩
  obtain ⟨stored, known, same⟩ := replays.known doc member
  exact fresh stored known (Value.str.inj (same.symm.trans named))

theorem Replays.store (replays : site.Replays) {log : EventLog}
    (taken : site.taken = some draft)
    (inserted : insertOne site.log draft.storageDoc = some log) :
    Replays { site with
      log
      tail := { site.tail with hash := draft.hash }
      taken := none
      dashboard := site.dashboard.hear draft.event
      appended := site.appended ++ [draft] } := by
  obtain ⟨atTail, -⟩ := replays.sound.taken draft taken
  have unheard := replays.unheard (replays.sound.fresh inserted)
  constructor
  · exact replays.sound.store taken inserted _
  · intro doc member
    rw [hear_applied] at member
    obtain ⟨stored, known, named⟩ := replays.known doc member
    exact ⟨stored, List.mem_append_left _ known, named⟩
  · simpa using replays.loading
  · simpa using replays.head
  · simpa using replays.silent
  · intro lastEventId named
    rw [hear_lastEventId] at named
    obtain ⟨last, heard⟩ := replays.heard lastEventId named
    exact ⟨last, heard.store unheard rfl rfl⟩
  · intro opened
    rw [hear_phase] at opened
    obtain ⟨old, waiting, queued⟩ := replays.waiting opened
    refine ⟨old, waiting ++ [draft], queued.store opened ?_ unheard rfl rfl⟩
    rw [atTail]
    exact replays.head (by simp [opened])

/-- Between what was applied and what is queued nothing of the log is out of place. -/
theorem Replayed.missed {old waiting : List Draft}
    (replayed : site.Replayed before earlier last paged rest)
    (queued : site.Waiting old waiting) :
    ∃ missed, old = before ++ (earlier ++ last :: paged) ++ missed ∧
      rest = missed ++ waiting := by
  have split := replayed.split.symm.trans queued.split
  rcases List.append_eq_append_iff.mp split with ⟨missed, rfl, rfl⟩ | ⟨more, front, back⟩
  · exact ⟨missed, rfl, rfl⟩
  · cases more using List.reverseRecOn with
    | nil => exact ⟨[], by simpa using front.symm, by simpa using back.symm⟩
    | append_singleton more draft =>
        have ends := congrArg List.getLast? front
        rw [List.getLast?_append_of_ne_nil _ (by simp), ← List.append_assoc,
          List.getLast?_concat] at ends
        have inside := List.mem_of_getLast? ends
        have queuedToo : draft ∈ waiting := by simp [back]
        have stored : draft ∈ site.appended := by
          rw [queued.split]
          exact List.mem_append_right _ queuedToo
        exact absurd ((replayed.applied draft stored).mpr inside)
          (queued.behind draft queuedToo).2

theorem Heard.receive (heard : site.Heard last) (sound : site.Sound) {old more : List Draft}
    (queued : site.Waiting old (draft :: more)) (rest : List Event) :
    Site.Lost { site with dashboard := site.dashboard.onChange draft.event rest } draft ∨
      ∃ before earlier paged behind,
        Replayed { site with dashboard := site.dashboard.onChange draft.event rest }
          before earlier draft paged behind := by
  have stored : draft ∈ site.appended := by simp [queued.split]
  have earlierThan (other : Draft) (member : other ∈ old) : other.seq < draft.seq :=
    sound.lt_of_append queued.split member List.mem_cons_self
  have unheard (other : Draft) (member : other ∈ site.appended) (less : other.seq < draft.seq)
      (never : ¬site.Applied other) :
      ¬Applied { site with dashboard := site.dashboard.onChange draft.event rest } other := by
    rw [applied_onChange]
    rintro (applied | same)
    · exact never applied
    · rw [sound.distinct draft stored other member same] at less
      exact Int.lt_irrefl _ less
  have before_draft : last ∈ old := by
    have member := heard.member
    rw [queued.split] at member
    rcases List.mem_append.mp member with front | back
    · exact front
    · exact absurd heard.applied (queued.behind last back).2
  cases heard.replayed with
  | inl lost =>
      obtain ⟨missed, member, above, below, never⟩ := lost
      have less := Int.lt_trans below (earlierThan last before_draft)
      exact Or.inl ⟨missed, member, above, less, unheard missed member less never⟩
  | inr replayed =>
      obtain ⟨before, earlier, paged, _, replayed⟩ := replayed
      obtain ⟨missed, front, rfl⟩ := replayed.missed queued
      cases missed with
      | nil =>
          refine Or.inr ⟨before, earlier ++ last :: paged, [], more, ?_, replayed.passed, ?_,
            ?_, ?_⟩
          · simpa using replayed.split
          · exact Nat.zero_le _
          · intro other member
            rw [applied_onChange, replayed.applied other member]
            constructor
            · rintro (known | same)
              · exact List.mem_append_left _ known
              · rw [sound.distinct draft stored other member same]
                exact List.mem_append_right _ List.mem_cons_self
            · intro inside
              rcases List.mem_append.mp inside with known | own
              · exact Or.inl known
              · exact Or.inr (congrArg Draft.eventId (List.mem_singleton.mp own).symm)
          · rw [Dashboard.onChange, List.map_append, ← lastWritten_congr_append _ replayed.net]
            funext cell
            rw [lastWritten_snoc, written_modelDump, List.map_singleton, lastWritten_snoc]
      | cons first missed =>
          have split := replayed.split
          have member : first ∈ site.appended := by simp [split]
          have late : last.seq < first.seq :=
            sound.lt_of_append split (by simp) (by simp)
          have less := earlierThan first (by simp [front])
          refine Or.inl ⟨first, member, Int.lt_of_le_of_lt heard.since late, less, ?_⟩
          refine unheard first member less ?_
          rw [replayed.applied first member]
          intro inside
          exact Int.lt_irrefl _ (sound.lt_of_append split
            (List.mem_append_right _ inside) List.mem_cons_self)

theorem Replays.receive_first (replays : site.Replays)
    (silent : site.dashboard.lastEventId = none) {old more : List Draft}
    (queued : site.Waiting old (draft :: more)) (rest : List Event) :
    Site.Lost { site with dashboard := site.dashboard.onChange draft.event rest } draft ∨
      ∃ before earlier paged behind,
        Replayed { site with dashboard := site.dashboard.onChange draft.event rest }
          before earlier draft paged behind := by
  have stored : draft ∈ site.appended := by simp [queued.split]
  have nothing := replays.silent silent
  have only (other : Draft) (member : other ∈ site.appended) :
      Applied { site with dashboard := site.dashboard.onChange draft.event rest } other ↔
        other = draft := by
    rw [applied_onChange]
    constructor
    · rintro (⟨doc, listed, -⟩ | same)
      · rw [nothing] at listed
        cases listed
      · exact (replays.sound.distinct draft stored other member same).symm
    · rintro rfl
      exact Or.inr rfl
  by_cases passed : ∀ other ∈ old, other.seq ≤ site.dashboard.headSeq
  · refine Or.inr ⟨old, [], [], more, ?_, passed, Nat.zero_le _, ?_, ?_⟩
    · simpa using queued.split
    · intro other member
      rw [only other member]
      exact List.mem_singleton.symm
    · rw [Dashboard.onChange, nothing]
      funext cell
      rw [lastWritten_snoc, written_modelDump, List.nil_append, List.map_singleton,
        ← List.nil_append [draft.storageDoc], lastWritten_snoc]
  · push Not at passed
    obtain ⟨missed, early, above⟩ := passed
    have less : missed.seq < draft.seq :=
      replays.sound.lt_of_append queued.split early List.mem_cons_self
    have member : missed ∈ site.appended := by
      rw [queued.split]
      exact List.mem_append_left _ early
    refine Or.inl ⟨missed, member, above, less, ?_⟩
    rw [only missed member]
    rintro rfl
    exact Int.lt_irrefl _ less

theorem Replays.receive (replays : site.Replays) {event : Event} {rest : List Event}
    (opened : site.dashboard.phase = .opened)
    (queue : site.dashboard.queue = event :: rest) :
    Replays { site with dashboard := site.dashboard.onChange event rest } := by
  obtain ⟨old, waiting, queued⟩ := replays.waiting opened
  obtain ⟨draft, more, rfl, rfl, rfl⟩ := List.map_eq_cons_iff.mp (queued.queue.symm.trans queue)
  have stored : draft ∈ site.appended := by simp [queued.split]
  constructor
  · exact ⟨replays.sound.stored, replays.sound.ordered, replays.sound.distinct,
      replays.sound.bounded, replays.sound.taken⟩
  · intro doc member
    rcases List.mem_append.mp member with known | last
    · exact replays.known doc known
    · rw [List.mem_singleton.mp last]
      exact ⟨draft, stored, rfl⟩
  · intro loading
    exact absurd (opened.symm.trans loading) (by decide)
  · exact replays.head
  · intro silent
    cases silent
  · intro _ _
    refine ⟨draft, stored, rfl, (queued.behind draft List.mem_cons_self).1, ?_, ?_⟩
    · rw [applied_onChange]
      exact Or.inr rfl
    · cases named : site.dashboard.lastEventId with
      | none => exact replays.receive_first named queued _
      | some lastEventId =>
          obtain ⟨last, heard⟩ := replays.heard lastEventId named
          exact heard.receive replays.sound queued _
  · intro _
    refine ⟨old ++ [draft], more, ?_, rfl, ?_⟩
    · rw [queued.split, List.append_assoc]
      rfl
    · intro other member
      obtain ⟨since, never⟩ := queued.behind other (List.mem_cons_of_mem _ member)
      refine ⟨since, ?_⟩
      rw [applied_onChange]
      rintro (applied | same)
      · exact never applied
      · have known : other ∈ site.appended := by simp [queued.split, member]
        have split : site.appended = (old ++ [draft]) ++ more := by simp [queued.split]
        have less : draft.seq < other.seq :=
          replays.sound.lt_of_append split (by simp) member
        rw [replays.sound.distinct draft stored other known same] at less
        exact Int.lt_irrefl _ less

theorem applied_fetched (sound : site.Sound) {page : List Draft}
    (within : ∀ draft ∈ page, draft ∈ site.appended) (member : draft ∈ site.appended)
    (applied : next.dashboard.applied =
      site.dashboard.applied ++ page.map Draft.storageDoc) :
    next.Applied draft ↔ site.Applied draft ∨ draft ∈ page := by
  rw [Applied, applied]
  constructor
  · rintro ⟨doc, inside, named⟩
    rcases List.mem_append.mp inside with earlier | paged
    · exact Or.inl ⟨doc, earlier, named⟩
    · obtain ⟨other, found, rfl⟩ := List.mem_map.mp paged
      rw [other.get_eventId] at named
      rw [sound.distinct draft member other (within other found) (Value.str.inj named).symm]
      exact Or.inr found
  · rintro (⟨doc, earlier, named⟩ | paged)
    · exact ⟨doc, List.mem_append_left _ earlier, named⟩
    · exact ⟨_, List.mem_append_right _ (List.mem_map_of_mem paged), draft.get_eventId⟩

theorem later_of_split (sound : site.Sound)
    (split : site.appended = before ++ (earlier ++ last :: paged) ++ rest) :
    later last site.appended = paged ++ rest := by
  have front : site.appended = (before ++ earlier ++ [last]) ++ (paged ++ rest) := by
    simp [split]
  rw [later, front, List.filter_append, List.filter_eq_nil_iff.mpr, List.nil_append,
    List.filter_eq_self.mpr]
  · intro draft member
    exact decide_eq_true (sound.lt_of_append front (by simp) member)
  · intro draft member
    rw [decide_eq_true_iff, Int.not_lt]
    rcases List.mem_append.mp member with early | same
    · have behind : site.appended = (before ++ earlier) ++ (last :: paged ++ rest) := by
        simp [split]
      exact (sound.lt_of_append behind early (by simp)).le
    · rw [List.mem_singleton.mp same]

theorem Heard.fetch (heard : site.Heard last) (sound : site.Sound)
    (appended : next.appended = site.appended)
    (headSeq : next.dashboard.headSeq = site.dashboard.headSeq)
    (lastEventId : next.dashboard.lastEventId = site.dashboard.lastEventId)
    (applied : next.dashboard.applied = site.dashboard.applied ++
      ((later last site.appended).take 2000).map Draft.storageDoc) : next.Heard last := by
  have within (draft : Draft) (member : draft ∈ (later last site.appended).take 2000) :
      draft ∈ site.appended ∧ last.seq < draft.seq :=
    mem_later.mp (List.mem_of_mem_take member)
  have shown (draft : Draft) (member : draft ∈ site.appended) : next.Applied draft ↔
      site.Applied draft ∨ draft ∈ (later last site.appended).take 2000 :=
    applied_fetched sound (fun draft listed => (within draft listed).1) member applied
  constructor
  · rw [appended]
    exact heard.member
  · rw [lastEventId]
    exact heard.named
  · rw [headSeq]
    exact heard.since
  · exact (shown last heard.member).mpr (Or.inl heard.applied)
  · cases heard.replayed with
    | inl lost =>
        obtain ⟨missed, member, above, below, never⟩ := lost
        refine Or.inl ⟨missed, appended ▸ member, headSeq ▸ above, below, ?_⟩
        rw [shown missed member]
        rintro (known | paged)
        · exact never known
        · exact Int.lt_asymm below (within missed paged).2
    | inr replayed =>
        obtain ⟨before, earlier, paged, rest, replayed⟩ := replayed
        have behind := later_of_split sound replayed.split
        have page : (later last site.appended).take 2000 =
            paged ++ rest.take (2000 - paged.length) := by
          rw [behind, List.take_append, List.take_of_length_le replayed.few]
        refine Or.inr ⟨before, earlier, (later last site.appended).take 2000,
          rest.drop (2000 - paged.length), ?_, ?_, List.length_take_le _ _, ?_, ?_⟩
        · rw [appended, page, replayed.split]
          simp
        · rw [headSeq]
          exact replayed.passed
        · rw [appended]
          intro draft member
          rw [shown draft member, replayed.applied draft member, page]
          simp only [List.mem_append, List.mem_cons]
          tauto
        · rw [applied, lastWritten_congr_append _ replayed.net, page]
          have twice : lastWritten Cell.written _ = _ := lastWritten_replayed
            ((earlier ++ [last]).map Draft.storageDoc) (paged.map Draft.storageDoc)
            ((rest.take (2000 - paged.length)).map Draft.storageDoc)
          simpa using twice

theorem Replays.fetch (replays : site.Replays) {lastEventId : String} {count : Nat}
    {docs : List Doc} (closed : site.dashboard.phase = .closed)
    (named : site.dashboard.lastEventId = some lastEventId)
    (paged : site.page lastEventId = .ok count docs) :
    Replays { site with
      dashboard := { site.dashboard with
        phase := .connecting
        applied := site.dashboard.applied ++ docs }
      fetched := site.appended.length } := by
  obtain ⟨last, heard⟩ := replays.heard lastEventId named
  cases named.symm.trans heard.named
  obtain ⟨rfl, -⟩ := replays.sound.docs_eq heard.member paged
  constructor
  · exact ⟨replays.sound.stored, replays.sound.ordered, replays.sound.distinct,
      replays.sound.bounded, replays.sound.taken⟩
  · intro doc member
    rcases List.mem_append.mp member with known | found
    · exact replays.known doc known
    · obtain ⟨draft, inside, rfl⟩ := List.mem_map.mp found
      exact ⟨draft, (mem_later.mp (List.mem_of_mem_take inside)).1, draft.get_eventId⟩
  · intro loading
    cases loading
  · intro _
    exact replays.head (by simp [closed])
  · intro silent
    cases silent.symm.trans named
  · intro _ _
    exact ⟨last, heard.fetch replays.sound rfl rfl rfl rfl⟩
  · intro opened
    cases opened

theorem Replays.away (replays : site.Replays) {phase : DashboardPhase} {queue : List Event}
    (loaded : site.dashboard.phase ≠ .loading) (notLoading : phase ≠ .loading)
    (unopened : phase = .opened → queue = []) :
    Replays { site with dashboard := { site.dashboard with phase, queue } } := by
  constructor
  · exact ⟨replays.sound.stored, replays.sound.ordered, replays.sound.distinct,
      replays.sound.bounded, replays.sound.taken⟩
  · exact replays.known
  · intro loading
    exact absurd loading notLoading
  · intro _
    exact replays.head loaded
  · exact replays.silent
  · intro lastEventId named
    obtain ⟨last, heard⟩ := replays.heard lastEventId named
    exact ⟨last, heard.congr rfl rfl rfl rfl⟩
  · intro opened
    refine ⟨site.appended, [], (List.append_nil _).symm, unopened opened, ?_⟩
    intro draft member
    cases member

theorem Replays.await (replays : site.Replays) {tail : Tail} {taken : Option Draft}
    (sound : Sound { site with tail, taken }) (onward : site.tail.seq ≤ tail.seq) :
    Replays { site with tail, taken } := by
  constructor
  · exact sound
  · exact replays.known
  · exact replays.loading
  · intro loaded
    exact Int.le_trans (replays.head loaded) onward
  · exact replays.silent
  · intro lastEventId named
    obtain ⟨last, heard⟩ := replays.heard lastEventId named
    exact ⟨last, heard.congr rfl rfl rfl rfl⟩
  · intro opened
    obtain ⟨old, waiting, queued⟩ := replays.waiting opened
    exact ⟨old, waiting, queued.split, queued.queue, queued.behind⟩

theorem replays_step {action : SiteAction} (replays : site.Replays)
    (stepped : step site action = some next) : next.Replays := by
  have sound := sound_step replays.sound stepped
  cases step_cases stepped with
  | took _ => exact replays.await sound (Int.le_add_one (Int.le_refl _))
  | failed => exact replays.await sound (Int.le_refl _)
  | stored taken inserted => exact replays.store taken inserted
  | loaded loading =>
      refine ⟨sound, replays.known, ?_, ?_, replays.silent, ?_, ?_⟩
      · intro loading
        cases loading
      · intro _
        exact Int.le_refl _
      · intro lastEventId named
        cases (replays.loading loading).symm.trans named
      · intro opened
        cases opened
  | connected connecting =>
      exact replays.away (by simp [connecting]) (by simp) (fun _ => rfl)
  | received opened queue => exact replays.receive opened queue
  | broke loaded => exact replays.away loaded (by simp) (fun _ => rfl)
  | fetched closed named paged => exact replays.fetch closed named paged
  | reconnected closed _ => exact replays.away (by simp [closed]) (by simp) (by simp)

end Site

end OrderStream
