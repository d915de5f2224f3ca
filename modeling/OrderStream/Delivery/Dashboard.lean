import Mathlib.Data.List.Infix
import OrderStream.Delivery.Verifiable

/-! The dashboard's snapshot, stream and replay beside the spine. -/

namespace OrderStream

open Transition

/-- A stream is `connecting` until its request reaches the server, and `closed` from its
error until `connectStream` is called again. -/
inductive DashboardPhase where
  | loading
  | connecting
  | opened
  | closed
  deriving DecidableEq

/-- `queue` is what was broadcast to the open stream and not received yet, `applied` the
events that `applyEventToOrders` got. -/
structure Dashboard where
  phase : DashboardPhase := .loading
  headSeq : Int := 0
  lastEventId : Option String := none
  queue : List Event := []
  applied : List Doc := []

/-- The spine with its one writer, and a dashboard.  `taken` is the draft of an `append`
whose insert is under way.  Two fields are not in the source: the events stored, and how
many of them were stored when the dashboard last got a page. -/
structure Site where
  log : EventLog := []
  tail : Tail
  taken : Option Draft := none
  dashboard : Dashboard := {}
  appended : List Draft := []
  fetched : Nat := 0

/-- An event is broadcast when it is stored. -/
inductive SiteAction where
  | take (args : AppendArgs) (eventId : String) (ts : Temporal)
  | store
  | fail
  | loadSnapshot
  | connect
  | receive
  | streamError
  | fetchEvents
  | fetchError

namespace Dashboard

def hear (dashboard : Dashboard) (event : Event) : Dashboard :=
  if dashboard.phase = .opened then { dashboard with queue := dashboard.queue ++ [event] }
  else dashboard

/-- The listener of `change`. -/
def onChange (dashboard : Dashboard) (event : Event) (rest : List Event) : Dashboard :=
  { dashboard with
    lastEventId := some event.eventId
    queue := rest
    applied := dashboard.applied ++ [event.modelDump] }

end Dashboard

namespace Site

def draft (site : Site) (args : AppendArgs) (eventId : String) (ts : Temporal) : Draft where
  args := args
  eventId := eventId
  ts := ts
  seq := site.tail.seq + 1
  prevHash := site.tail.hash

/-- The answer to `/events?since_event=<lastEventId>&limit=2000`. -/
def page (site : Site) (lastEventId : String) : EventsAnswer :=
  replayEvents site.log none (some lastEventId) 2000

def step (site : Site) : SiteAction → Option Site
  | .take args eventId ts =>
      match site.taken with
      | none =>
          some { site with
            tail := { site.tail with seq := site.tail.seq + 1 }
            taken := some (site.draft args eventId ts) }
      | some _ => none
  | .store =>
      match site.taken with
      | some draft =>
          (insertOne site.log draft.storageDoc).map fun log =>
            { site with
              log
              tail := { site.tail with hash := draft.hash }
              taken := none
              dashboard := site.dashboard.hear draft.event
              appended := site.appended ++ [draft] }
      | none => none
  | .fail =>
      match site.taken with
      | some _ => some { site with taken := none }
      | none => none
  | .loadSnapshot =>
      match site.dashboard.phase with
      | .loading =>
          some { site with
            dashboard := { site.dashboard with
              phase := .connecting
              headSeq := site.tail.seq } }
      | _ => none
  | .connect =>
      match site.dashboard.phase with
      | .connecting =>
          some { site with dashboard := { site.dashboard with phase := .opened, queue := [] } }
      | _ => none
  | .receive =>
      match site.dashboard.phase, site.dashboard.queue with
      | .opened, event :: rest =>
          some { site with dashboard := site.dashboard.onChange event rest }
      | _, _ => none
  | .streamError =>
      match site.dashboard.phase with
      | .connecting | .opened =>
          some { site with dashboard := { site.dashboard with phase := .closed, queue := [] } }
      | .loading | .closed => none
  | .fetchEvents =>
      match site.dashboard.phase, site.dashboard.lastEventId.map site.page with
      | .closed, some (.ok _ docs) =>
          some { site with
            dashboard := { site.dashboard with
              phase := .connecting
              applied := site.dashboard.applied ++ docs }
            fetched := site.appended.length }
      -- nothing to ask for, or no `events` in the response
      | .closed, _ =>
          some { site with dashboard := { site.dashboard with phase := .connecting } }
      | _, _ => none
  | .fetchError =>
      match site.dashboard.phase with
      | .closed =>
          some { site with dashboard := { site.dashboard with phase := .connecting } }
      | _ => none

def Applied (site : Site) (draft : Draft) : Prop :=
  ∃ doc ∈ site.dashboard.applied, doc.get "event_id" = .str draft.eventId

/-- Every event later than the snapshot was applied. -/
def CaughtUp (site : Site) : Prop :=
  ∀ draft ∈ site.appended, site.dashboard.headSeq < draft.seq → site.Applied draft

def later (last : Draft) (drafts : List Draft) : List Draft :=
  drafts.filter fun draft => decide (last.seq < draft.seq)

/-- A stream is opened when nothing was stored since the snapshot, or, once an event came
over a stream, when at most a page was stored after the last one that did, and none of it
after the last page was fetched. -/
def Bridged (site : Site) : SiteAction → Prop
  | .connect =>
      match site.dashboard.lastEventId with
      | none => ∀ draft ∈ site.appended, draft.seq ≤ site.dashboard.headSeq
      | some lastEventId => ∀ last ∈ site.appended, last.eventId = lastEventId →
          (later last site.appended).length ≤ 2000 ∧
            ∀ draft ∈ site.appended.drop site.fetched, draft.seq ≤ last.seq
  | _ => True

instance : ∀ (site : Site) action, Decidable (site.Bridged action)
  | ⟨_, _, _, ⟨_, headSeq, none, _, _⟩, appended, _⟩, .connect =>
      inferInstanceAs (Decidable (∀ draft ∈ appended, draft.seq ≤ headSeq))
  | ⟨_, _, _, ⟨_, _, some lastEventId, _, _⟩, appended, fetched⟩, .connect =>
      inferInstanceAs (Decidable (∀ last ∈ appended, last.eventId = lastEventId →
        (later last appended).length ≤ 2000 ∧
          ∀ draft ∈ appended.drop fetched, draft.seq ≤ last.seq))
  | _, .take _ _ _ | _, .store | _, .fail | _, .loadSnapshot | _, .receive | _, .streamError
  | _, .fetchEvents | _, .fetchError => inferInstanceAs (Decidable True)

variable {site next : Site}

inductive Step (site : Site) : SiteAction → Site → Prop where
  | took {args : AppendArgs} {eventId : String} {ts : Temporal} : site.taken = none →
      Step site (.take args eventId ts)
        { site with
          tail := { site.tail with seq := site.tail.seq + 1 }
          taken := some (site.draft args eventId ts) }
  | stored {draft : Draft} {log : EventLog} : site.taken = some draft →
      insertOne site.log draft.storageDoc = some log →
        Step site .store
          { site with
            log
            tail := { site.tail with hash := draft.hash }
            taken := none
            dashboard := site.dashboard.hear draft.event
            appended := site.appended ++ [draft] }
  | failed : Step site .fail { site with taken := none }
  | loaded : site.dashboard.phase = .loading →
      Step site .loadSnapshot
        { site with
          dashboard := { site.dashboard with
            phase := .connecting
            headSeq := site.tail.seq } }
  | connected : site.dashboard.phase = .connecting →
      Step site .connect
        { site with dashboard := { site.dashboard with phase := .opened, queue := [] } }
  | received {event : Event} {rest : List Event} : site.dashboard.phase = .opened →
      site.dashboard.queue = event :: rest →
        Step site .receive { site with dashboard := site.dashboard.onChange event rest }
  | broke : site.dashboard.phase ≠ .loading →
      Step site .streamError
        { site with dashboard := { site.dashboard with phase := .closed, queue := [] } }
  | fetched {lastEventId : String} {count : Nat} {docs : List Doc} :
      site.dashboard.phase = .closed → site.dashboard.lastEventId = some lastEventId →
      site.page lastEventId = .ok count docs →
        Step site .fetchEvents
          { site with
            dashboard := { site.dashboard with
              phase := .connecting
              applied := site.dashboard.applied ++ docs }
            fetched := site.appended.length }
  | reconnected {action : SiteAction} : site.dashboard.phase = .closed →
      site.Bridged action →
        Step site action
          { site with dashboard := { site.dashboard with phase := .connecting } }

theorem step_cases {action : SiteAction} (stepped : step site action = some next) :
    Step site action next := by
  cases action with
  | take args eventId ts =>
      simp only [step] at stepped
      split at stepped
      · cases stepped
        exact .took ‹_›
      · cases stepped
  | store =>
      simp only [step] at stepped
      split at stepped
      · obtain ⟨log, inserted, rfl⟩ := Option.map_eq_some_iff.mp stepped
        exact .stored ‹_› inserted
      · cases stepped
  | fail =>
      simp only [step] at stepped
      split at stepped
      · cases stepped
        exact .failed
      · cases stepped
  | loadSnapshot =>
      simp only [step] at stepped
      split at stepped
      · cases stepped
        exact .loaded ‹_›
      · cases stepped
  | connect =>
      simp only [step] at stepped
      split at stepped
      · cases stepped
        exact .connected ‹_›
      · cases stepped
  | receive =>
      simp only [step] at stepped
      split at stepped
      · cases stepped
        exact .received ‹_› ‹_›
      · cases stepped
  | streamError =>
      simp only [step] at stepped
      split at stepped
      · rename_i connecting
        cases stepped
        exact .broke (by simp [connecting])
      · rename_i opened
        cases stepped
        exact .broke (by simp [opened])
      · cases stepped
      · cases stepped
  | fetchEvents =>
      simp only [step] at stepped
      split at stepped
      · rename_i closed asked
        cases stepped
        obtain ⟨lastEventId, named, found⟩ := Option.map_eq_some_iff.mp asked
        exact .fetched closed named found
      · cases stepped
        exact .reconnected ‹_› trivial
      · cases stepped
  | fetchError =>
      simp only [step] at stepped
      split at stepped
      · cases stepped
        exact .reconnected ‹_› trivial
      · cases stepped

structure Sound (site : Site) : Prop where
  stored : site.log = site.appended.map Draft.storageDoc
  ordered : site.appended.Pairwise fun earlier later => earlier.seq < later.seq
  distinct : ∀ draft ∈ site.appended, ∀ other ∈ site.appended,
    draft.eventId = other.eventId → draft = other
  bounded : ∀ draft ∈ site.appended, draft.seq ≤ site.tail.seq
  taken : ∀ draft, site.taken = some draft →
    draft.seq = site.tail.seq ∧ ∀ stored ∈ site.appended, stored.seq < draft.seq

theorem Sound.ascending (sound : site.Sound) : Ascending site.log := by
  refine ⟨site.appended.map Draft.seq, ?_, ?_⟩
  · rw [sound.stored, List.map_map, List.map_map]
    apply List.map_congr_left
    intro draft _
    exact draft.get_seq
  · rw [List.pairwise_map]
    exact sound.ordered

theorem Sound.nodup (sound : site.Sound) : site.appended.Nodup := by
  refine sound.ordered.imp ?_
  intro earlier late less same
  rw [same] at less
  exact Int.lt_irrefl _ less

theorem Sound.replaySince_eq (sound : site.Sound) {last : Draft}
    (member : last ∈ site.appended) :
    replaySince site.log none (some last.eventId) 2000 =
      .ok (((later last site.appended).take 2000).map Draft.storageDoc) := by
  have found : site.log.find? (fun doc =>
      (doc.get "event_id").pyEq (.str last.eventId)) = some last.storageDoc := by
    cases found : site.log.find? fun doc =>
        (doc.get "event_id").pyEq (.str last.eventId) with
    | none =>
        have absent := List.find?_eq_none.mp found last.storageDoc
          (sound.stored ▸ List.mem_map_of_mem member)
        simp [Draft.get_eventId, Value.pyEq_str_iff] at absent
    | some doc =>
        have inside := List.mem_of_find?_eq_some found
        have named := List.find?_some found
        rw [sound.stored] at inside
        obtain ⟨draft, stored, rfl⟩ := List.mem_map.mp inside
        rw [draft.get_eventId, Value.pyEq_str_iff] at named
        rw [sound.distinct draft stored last member (Value.str.inj named)]
  have filtered : site.log.filter (laterThan last.seq) =
      (later last site.appended).map Draft.storageDoc := by
    rw [sound.stored, List.filter_map]
    congr 1
    apply List.filter_congr
    intro draft _
    exact laterThan_storageDoc last.seq draft
  have sorted : sortBySeq (site.log.filter (laterThan last.seq)) =
      site.log.filter (laterThan last.seq) :=
    (sound.ascending.of_sublist (List.filter_sublist.map _)).sortBySeq_eq
  have asked : replaySince site.log none (some last.eventId) 2000 =
      replaySince site.log (some last.seq) none 2000 := by
    unfold replaySince
    simp only [found, subscript, last.storageDoc_seq]
    rfl
  rw [asked, replaySince_seq, sorted, filtered]
  simp [cursorLimit, List.map_take]

/-- The page after a stored event, unless there is a NaN or an infinity in it. -/
theorem Sound.page_eq (sound : site.Sound) {last : Draft} (member : last ∈ site.appended) :
    site.page last.eventId =
      let docs := ((later last site.appended).take 2000).map Draft.storageDoc
      if docs.all Doc.isFinite then .ok docs.length docs else .serverError := by
  rw [page, replayEvents_of_replaySince rfl rfl (by decide) (by decide)
    (sound.replaySince_eq member)]
  simp only [List.map_map, Function.comp_def, servedDoc_storageDoc]

theorem Sound.docs_eq (sound : site.Sound) {last : Draft} (member : last ∈ site.appended)
    {count : Nat} {docs : List Doc} (answered : site.page last.eventId = .ok count docs) :
    docs = ((later last site.appended).take 2000).map Draft.storageDoc ∧
      docs.all Doc.isFinite = true := by
  rw [sound.page_eq member] at answered
  dsimp only at answered
  split at answered
  · cases answered
    exact ⟨rfl, ‹_›⟩
  · cases answered

theorem sound_take (sound : site.Sound) (args : AppendArgs) (eventId : String)
    (ts : Temporal) :
    Sound { site with
      tail := { site.tail with seq := site.tail.seq + 1 }
      taken := some (site.draft args eventId ts) } where
  stored := sound.stored
  ordered := sound.ordered
  distinct := sound.distinct
  bounded draft member := Int.le_trans (sound.bounded draft member) (Int.le_add_one le_rfl)
  taken draft same := by
    cases same
    exact ⟨rfl, fun stored member => Int.lt_add_one_of_le (sound.bounded stored member)⟩

theorem Sound.fresh (sound : site.Sound) {draft : Draft} {log : EventLog}
    (inserted : insertOne site.log draft.storageDoc = some log) :
    ∀ stored ∈ site.appended, stored.eventId ≠ draft.eventId := by
  intro stored member same
  have differs := ((insertOne_eq_some inserted).2 stored.storageDoc
    (sound.stored ▸ List.mem_map_of_mem member)).2
  rw [stored.get_eventId, draft.get_eventId, same, sameIndexKey_self] at differs
  cases differs

theorem Sound.store (sound : site.Sound) {draft : Draft} {log : EventLog}
    (taken : site.taken = some draft)
    (inserted : insertOne site.log draft.storageDoc = some log) (dashboard : Dashboard) :
    Sound { site with
      log
      tail := { site.tail with hash := draft.hash }
      taken := none
      dashboard
      appended := site.appended ++ [draft] } := by
  obtain ⟨atTail, below⟩ := sound.taken draft taken
  have fresh := sound.fresh inserted
  constructor
  · rw [(insertOne_eq_some inserted).1, List.map_append, sound.stored]
    rfl
  · refine List.pairwise_append.mpr ⟨sound.ordered, List.pairwise_singleton _ _, ?_⟩
    intro earlier member last isLast
    rw [List.mem_singleton.mp isLast]
    exact below earlier member
  · intro one member other otherMember same
    rcases List.mem_append.mp member with known | last
    · rcases List.mem_append.mp otherMember with known' | last'
      · exact sound.distinct one known other known' same
      · rw [List.mem_singleton.mp last'] at same
        exact absurd same (fresh one known)
    · rw [List.mem_singleton.mp last] at same ⊢
      rcases List.mem_append.mp otherMember with known' | last'
      · exact absurd same.symm (fresh other known')
      · exact (List.mem_singleton.mp last').symm
  · intro stored member
    rcases List.mem_append.mp member with known | last
    · exact sound.bounded stored known
    · rw [List.mem_singleton.mp last]
      exact atTail.le
  · intro other same
    cases same

theorem sound_step {action : SiteAction} (sound : site.Sound)
    (stepped : step site action = some next) : next.Sound := by
  cases step_cases stepped with
  | took _ => exact sound_take sound _ _ _
  | stored taken inserted => exact sound.store taken inserted _
  | failed =>
      refine ⟨sound.stored, sound.ordered, sound.distinct, sound.bounded, ?_⟩
      intro draft same
      cases same
  | loaded _ | connected _ | received _ _ | broke _ | fetched _ _ _ | reconnected _ _ =>
      exact ⟨sound.stored, sound.ordered, sound.distinct, sound.bounded, sound.taken⟩

end Site

end OrderStream
