import OrderStream.Spine.Chain
import OrderStream.Theory.Paging
import OrderStream.Theory.Transition

/-! A client that asks `replay_since` for page after page while the log grows. -/

namespace OrderStream

open Transition

structure Numbered (log : EventLog) : Prop where
  numbers : ∀ doc ∈ log, doc.get "seq" = .int (seqOf doc)
  distinct : (log.map seqOf).Nodup

section Page

variable {log : EventLog}

theorem Numbered.filter_laterThan (numbered : Numbered log) (start : Int) :
    log.filter (laterThan start) = log.filter fun doc => decide (start < seqOf doc) := by
  apply List.filter_congr
  intro doc member
  have stored := numbered.numbers doc member
  simp [laterThan, stored, bsonRank, bsonLe, ← decide_not]

theorem Numbered.replaySince_eq (numbered : Numbered log) (start : Int) {limit : Nat}
    (positive : 1 ≤ limit) :
    replaySince log (some start) none limit =
      .ok ((Paging.later seqOf start log).take limit) := by
  rw [replaySince_seq, numbered.filter_laterThan,
    sortBySeq_eq_insertionSort fun doc member =>
      numbered.numbers doc (List.mem_filter.mp member).1]
  cases limit with
  | zero => cases positive
  | succ limit => rfl

theorem replaySince_event {doc : Doc} {seq : Int} {eventId : String}
    (member : doc ∈ log) (stored : doc.get "seq" = .int seq)
    (named : doc.get "event_id" = .str eventId)
    (unique : ∀ other ∈ log, other.get "event_id" = .str eventId → other = doc)
    (limit : Nat) :
    replaySince log none (some eventId) limit = replaySince log (some seq) none limit := by
  have found : log.find? (fun other => (other.get "event_id").pyEq (.str eventId)) =
      some doc := by
    cases found : log.find? fun other => (other.get "event_id").pyEq (.str eventId) with
    | none =>
        have absent := List.find?_eq_none.mp found doc member
        rw [Value.pyEq_str_iff] at absent
        exact absurd named absent
    | some other =>
        have same := List.find?_some found
        rw [Value.pyEq_str_iff] at same
        rw [unique other (List.mem_of_find?_eq_some found) same]
  have present := Doc.get?_eq_some stored (by simp)
  unfold replaySince
  simp only [found, subscript, present]
  rfl

theorem Numbered.snoc {draft : Draft} {next : EventLog} (numbered : Numbered log)
    (atTail : ∀ stored ∈ log, seqOf stored < draft.seq)
    (inserted : insertOne log draft.storageDoc = some next) : Numbered next := by
  obtain ⟨rfl, -⟩ := insertOne_eq_some inserted
  constructor
  · intro doc member
    rcases List.mem_append.mp member with known | last
    · exact numbered.numbers doc known
    · rw [List.mem_singleton.mp last, draft.seqOf_storageDoc]
      exact draft.get_seq
  · rw [List.map_append, List.nodup_append]
    refine ⟨numbered.distinct, List.nodup_singleton _, ?_⟩
    intro first known second last
    obtain ⟨stored, member, rfl⟩ := List.mem_map.mp known
    rw [List.map_singleton, List.mem_singleton, draft.seqOf_storageDoc] at last
    rw [last]
    exact (atTail stored member).ne

end Page

inductive Since where
  | seq (value : Int)
  | event (eventId : String)

/-- A client with the events its pages returned, beside the log. -/
structure ReplayClient where
  log : EventLog
  since : Since
  returned : List Doc := []

inductive ReplayAction where
  | append (draft : Draft)
  | page (limit : Nat)

namespace ReplayClient

def page (client : ReplayClient) (limit : Nat) : Except PyError (List Doc) :=
  match client.since with
  | .seq seq => replaySince client.log (some seq) none limit
  | .event eventId => replaySince client.log none (some eventId) limit

def receive (client : ReplayClient) (docs : List Doc) : ReplayClient :=
  { client with
    since := match docs.getLast? with
      | some last => .seq (seqOf last)
      | none => client.since
    returned := client.returned ++ docs }

def step (client : ReplayClient) : ReplayAction → Option ReplayClient
  | .append draft =>
      if ∀ stored ∈ client.log, seqOf stored < draft.seq then
        (insertOne client.log draft.storageDoc).map fun log => { client with log }
      else none
  | .page limit =>
      -- `ge=1`
      if 1 ≤ limit then
        match client.page limit with
        | .ok docs => some (client.receive docs)
        | .error _ => none
      else none

variable {client next : ReplayClient}

inductive Step (client : ReplayClient) : ReplayAction → ReplayClient → Prop where
  | appended {draft : Draft} {log : EventLog} :
      (∀ stored ∈ client.log, seqOf stored < draft.seq) →
        insertOne client.log draft.storageDoc = some log →
          Step client (.append draft) { client with log }
  | paged {limit : Nat} {docs : List Doc} : 1 ≤ limit → client.page limit = .ok docs →
      Step client (.page limit) (client.receive docs)

theorem step_cases {action : ReplayAction} (stepped : step client action = some next) :
    Step client action next := by
  cases action with
  | append draft =>
      simp only [step] at stepped
      split at stepped
      · obtain ⟨log, inserted, rfl⟩ := Option.map_eq_some_iff.mp stepped
        exact .appended ‹_› inserted
      · cases stepped
  | page limit =>
      simp only [step] at stepped
      split at stepped
      · split at stepped
        · cases stepped
          exact .paged ‹_› ‹_›
        · cases stepped
      · cases stepped

/-- What was returned and what is later than the cursor make up what is later than the
start. -/
structure Sound (start : Int) (client : ReplayClient) (cursor : Int) : Prop where
  since : client.since = .seq cursor
  numbered : Numbered client.log
  reached : cursor = start ∨ ∃ last ∈ client.log, seqOf last = cursor ∧ start < cursor
  split : client.returned ++ Paging.later seqOf cursor client.log =
    Paging.later seqOf start client.log

section Sound

variable {start cursor : Int}

theorem Sound.page_eq (sound : client.Sound start cursor) {limit : Nat}
    (positive : 1 ≤ limit) :
    client.page limit = .ok ((Paging.later seqOf cursor client.log).take limit) := by
  unfold page
  rw [sound.since]
  exact sound.numbered.replaySince_eq cursor positive

theorem Sound.cursor_lt_iff (sound : client.Sound start cursor) {seq : Int}
    (atTail : ∀ stored ∈ client.log, seqOf stored < seq) : cursor < seq ↔ start < seq := by
  rcases sound.reached with rfl | ⟨last, member, rfl, past⟩
  · exact Iff.rfl
  · have below := atTail last member
    exact iff_of_true below (past.trans below)

theorem Sound.append (sound : client.Sound start cursor) {draft : Draft} {log : EventLog}
    (atTail : ∀ stored ∈ client.log, seqOf stored < draft.seq)
    (inserted : insertOne client.log draft.storageDoc = some log) :
    Sound start { client with log } cursor := by
  have numbered := sound.numbered.snoc atTail inserted
  obtain ⟨rfl, -⟩ := insertOne_eq_some inserted
  have greatest : ∀ stored ∈ client.log, seqOf stored < seqOf draft.storageDoc := by
    rw [draft.seqOf_storageDoc]
    exact atTail
  refine ⟨sound.since, numbered, ?_, ?_⟩
  · rcases sound.reached with same | ⟨last, member, reached⟩
    · exact Or.inl same
    · exact Or.inr ⟨last, List.mem_append_left _ member, reached⟩
  · rw [Paging.later_snoc sound.numbered.distinct greatest,
      Paging.later_snoc sound.numbered.distinct greatest, draft.seqOf_storageDoc,
      if_congr (sound.cursor_lt_iff atTail) rfl rfl, ← List.append_assoc, sound.split]

theorem Sound.receive (sound : client.Sound start cursor) (limit : Nat) :
    ∃ cursor', Sound start
        (client.receive ((Paging.later seqOf cursor client.log).take limit)) cursor' ∧
      Paging.later seqOf cursor' client.log =
        (Paging.later seqOf cursor client.log).drop limit := by
  have split := List.take_append_drop limit (Paging.later seqOf cursor client.log)
  cases ends : ((Paging.later seqOf cursor client.log).take limit).getLast? with
  | none =>
      have empty := List.getLast?_eq_none_iff.mp ends
      refine ⟨cursor, ⟨?_, sound.numbered, sound.reached, ?_⟩, ?_⟩
      · simp only [ReplayClient.receive, ends]
        exact sound.since
      · simp only [ReplayClient.receive, empty, List.append_nil]
        exact sound.split
      · rw [empty, List.nil_append] at split
        exact split.symm
  | some last =>
      have returned := List.mem_of_mem_take (List.mem_of_getLast? ends)
      obtain ⟨member, past⟩ := Paging.mem_later.mp returned
      have fromStart : start < seqOf last := by
        have inside : last ∈ Paging.later seqOf start client.log := by
          rw [← sound.split]
          exact List.mem_append_right _ returned
        exact (Paging.mem_later.mp inside).2
      have rest := Paging.later_of_page sound.numbered.distinct split.symm ends
      refine ⟨seqOf last,
        ⟨?_, sound.numbered, Or.inr ⟨last, member, rfl, fromStart⟩, ?_⟩, rest⟩
      · simp only [ReplayClient.receive, ends]
      · simp only [ReplayClient.receive]
        rw [rest, List.append_assoc, split, sound.split]

theorem Sound.step (sound : client.Sound start cursor) {action : ReplayAction}
    (stepped : step client action = some next) : ∃ cursor', next.Sound start cursor' := by
  cases step_cases stepped with
  | appended atTail inserted => exact ⟨cursor, sound.append atTail inserted⟩
  | paged positive paged =>
      rw [sound.page_eq positive] at paged
      cases paged
      obtain ⟨cursor', moved, -⟩ := sound.receive _
      exact ⟨cursor', moved⟩

theorem Sound.returned_eq (sound : client.Sound start cursor) {limit : Nat}
    (positive : 1 ≤ limit) (empty : client.page limit = .ok []) :
    client.returned = Paging.later seqOf start client.log := by
  rw [sound.page_eq positive, Except.ok.injEq, List.take_eq_nil_iff] at empty
  rcases empty with none | nothing
  · omega
  · rw [← sound.split, nothing, List.append_nil]

/-- Pages of any sizes leave nothing once there are as many as events to return. -/
theorem Sound.drained (sound : client.Sound start cursor) (limits : List Nat)
    (positive : ∀ limit ∈ limits, 1 ≤ limit)
    (enough : (Paging.later seqOf cursor client.log).length ≤ limits.length) :
    ∃ finish, exec ReplayClient.step client (limits.map .page) = some finish ∧
      ∀ limit, 1 ≤ limit → finish.page limit = .ok [] := by
  induction limits generalizing client cursor with
  | nil =>
      refine ⟨client, rfl, ?_⟩
      intro limit atLeast
      rw [sound.page_eq atLeast, List.eq_nil_of_length_eq_zero (Nat.le_zero.mp enough),
        List.take_nil]
  | cons limit rest ih =>
      have atLeast := positive limit List.mem_cons_self
      obtain ⟨cursor', moved, fewer⟩ := sound.receive limit
      have left : (Paging.later seqOf cursor' client.log).length ≤ rest.length := by
        rw [fewer, List.length_drop]
        simp only [List.length_cons] at enough
        omega
      obtain ⟨finish, reached, empty⟩ :=
        ih moved (fun other member => positive other (List.mem_cons_of_mem _ member)) left
      refine ⟨finish, ?_, empty⟩
      simp only [List.map_cons, exec, ReplayClient.step, if_pos atLeast,
        sound.page_eq atLeast, Option.bind_some]
      exact reached

end Sound

theorem sound_init {log : EventLog} (numbered : Numbered log) (start : Int) :
    Sound start ⟨log, .seq start, []⟩ start where
  since := rfl
  numbered := numbered
  reached := Or.inl rfl
  split := rfl

theorem sound_reached {log : EventLog} (numbered : Numbered log) {start : Int}
    {actions : List ReplayAction} (reached : exec step ⟨log, .seq start, []⟩ actions = some client) :
    ∃ cursor, client.Sound start cursor := by
  refine exec_invariant (motive := fun client => ∃ cursor, Sound start client cursor)
    ⟨start, sound_init numbered start⟩ ?_ reached
  rintro state action finish ⟨cursor, sound⟩ stepped
  exact sound.step stepped

/-! A start at a stored event. -/

inductive Alike : ReplayClient → ReplayClient → Prop where
  | same {replay : ReplayClient} : Alike replay replay
  | started {log : EventLog} {doc : Doc} {seq : Int} {eventId : String} :
      doc ∈ log → doc.get "seq" = .int seq → doc.get "event_id" = .str eventId →
        (∀ other ∈ log, other.get "event_id" = .str eventId → other = doc) →
          Alike ⟨log, .event eventId, []⟩ ⟨log, .seq seq, []⟩

theorem Alike.page_eq {other : ReplayClient} (alike : Alike client other) (limit : Nat) :
    client.page limit = other.page limit := by
  cases alike with
  | same => rfl
  | started member stored named unique =>
      exact replaySince_event member stored named unique limit

theorem Alike.returned_eq {other : ReplayClient} (alike : Alike client other) :
    client.returned = other.returned := by
  cases alike with
  | same => rfl
  | started => rfl

/-- The event the client asks from stays the only one of its id. -/
theorem only_named {log next : EventLog} {draft : Draft} {doc : Doc} {eventId : String}
    (inserted : insertOne log draft.storageDoc = some next) (member : doc ∈ log)
    (named : doc.get "event_id" = .str eventId)
    (unique : ∀ other ∈ log, other.get "event_id" = .str eventId → other = doc) :
    ∀ other ∈ next, other.get "event_id" = .str eventId → other = doc := by
  obtain ⟨rfl, fresh⟩ := insertOne_eq_some inserted
  intro other present same
  rcases List.mem_append.mp present with known | last
  · exact unique other known same
  · have differs := (fresh doc member).2
    rw [List.mem_singleton.mp last] at same
    rw [named, same, sameIndexKey_self] at differs
    cases differs

theorem Alike.step {other : ReplayClient} (alike : Alike client other)
    (action : ReplayAction) :
    ReplayClient.step client action = none ∧ ReplayClient.step other action = none ∨
      ∃ left right, ReplayClient.step client action = some left ∧
        ReplayClient.step other action = some right ∧ Alike left right := by
  have pages := alike.page_eq
  cases alike with
  | same =>
      cases ReplayClient.step client action with
      | none => exact Or.inl ⟨rfl, rfl⟩
      | some left => exact Or.inr ⟨left, left, rfl, rfl, .same⟩
  | started member stored named unique =>
      rename_i log doc seq eventId
      cases action with
      | append draft =>
          simp only [ReplayClient.step]
          split
          · cases inserted : insertOne log draft.storageDoc with
            | none => exact Or.inl ⟨rfl, rfl⟩
            | some next =>
                have kept : doc ∈ next := by
                  rw [(insertOne_eq_some inserted).1]
                  exact List.mem_append_left _ member
                exact Or.inr ⟨_, _, rfl, rfl,
                  .started kept stored named (only_named inserted member named unique)⟩
          · exact Or.inl ⟨rfl, rfl⟩
      | page limit =>
          simp only [ReplayClient.step, pages limit]
          split
          · cases ReplayClient.page ⟨log, .seq seq, []⟩ limit with
            | error _ => exact Or.inl ⟨rfl, rfl⟩
            | ok docs =>
                refine Or.inr ⟨_, _, rfl, rfl, ?_⟩
                cases ends : docs.getLast? with
                | none =>
                    rw [List.getLast?_eq_none_iff.mp ends]
                    exact .started member stored named unique
                | some last =>
                    simp only [receive, ends]
                    exact .same
          · exact Or.inl ⟨rfl, rfl⟩

theorem Alike.exec {other : ReplayClient} (alike : Alike client other)
    (actions : List ReplayAction) :
    Transition.exec ReplayClient.step client actions = none ∧
        Transition.exec ReplayClient.step other actions = none ∨
      ∃ left right, Transition.exec ReplayClient.step client actions = some left ∧
        Transition.exec ReplayClient.step other actions = some right ∧ Alike left right := by
  induction actions generalizing client other with
  | nil => exact Or.inr ⟨client, other, rfl, rfl, alike⟩
  | cons action rest ih =>
      simp only [Transition.exec]
      rcases alike.step action with ⟨left, right⟩ | ⟨left, right, first, second, still⟩
      · rw [left, right]
        exact Or.inl ⟨rfl, rfl⟩
      · rw [first, second]
        exact ih still

/-- Page after page until one is empty returns every event later than the start, each once
and by increasing seq, and so many pages as events are left come to an empty one.  From a
stored event the pages are those from its seq. -/
theorem replay_complete {log : EventLog} (numbered : Numbered log) (start : Int) :
    (∀ actions client, exec step ⟨log, .seq start, []⟩ actions = some client →
      (∀ limit, 1 ≤ limit → ∃ docs, client.page limit = .ok docs) ∧
      (∀ limit, 1 ≤ limit → client.page limit = .ok [] →
        (client.returned.Pairwise fun first second => seqOf first < seqOf second) ∧
          ∀ doc, doc ∈ client.returned ↔ doc ∈ client.log ∧ start < seqOf doc) ∧
      ∀ limits : List Nat, (∀ limit ∈ limits, 1 ≤ limit) →
        client.log.length ≤ limits.length →
          ∃ finish, exec step client (limits.map .page) = some finish ∧
            ∀ limit, 1 ≤ limit → finish.page limit = .ok []) ∧
    ∀ doc ∈ log, ∀ eventId, doc.get "event_id" = .str eventId →
      (∀ other ∈ log, other.get "event_id" = .str eventId → other = doc) →
        ∀ actions limit,
          (exec step ⟨log, .event eventId, []⟩ actions).map
              (fun client => (client.returned, client.page limit)) =
            (exec step ⟨log, .seq (seqOf doc), []⟩ actions).map
              fun client => (client.returned, client.page limit) := by
  constructor
  · intro actions client reached
    obtain ⟨cursor, sound⟩ := sound_reached numbered reached
    refine ⟨?_, ?_, ?_⟩
    · intro limit positive
      exact ⟨_, sound.page_eq positive⟩
    · intro limit positive empty
      rw [sound.returned_eq positive empty]
      exact ⟨Paging.increasing_later sound.numbered.distinct,
        fun doc => Paging.mem_later⟩
    · intro limits positive enough
      exact sound.drained limits positive (Nat.le_trans Paging.length_later_le enough)
  · intro doc member eventId named unique actions limit
    have alike : Alike ⟨log, .event eventId, []⟩ ⟨log, .seq (seqOf doc), []⟩ :=
      .started member (numbered.numbers doc member) named unique
    rcases alike.exec actions with ⟨left, right⟩ | ⟨left, right, first, second, still⟩
    · rw [left, right]
    · rw [first, second]
      simp only [Option.map_some, still.returned_eq, still.page_eq]

def sampleDraft (seq : Int) (eventId : String) : Draft where
  args := sampleArgs
  eventId := eventId
  ts := sampleTime
  seq := seq
  prevHash := auditGenesisHash

def sampleLog : EventLog := [(sampleDraft 4 "d").storageDoc, (sampleDraft 2 "b").storageDoc]

def sampleReplay : List ReplayAction :=
  [.page 1, .append (sampleDraft 7 "g"), .page 2]

theorem sampleLog_numbered : Numbered sampleLog where
  numbers doc member := by
    simp only [sampleLog, List.mem_cons, List.not_mem_nil, or_false] at member
    rcases member with rfl | rfl
    · rw [Draft.seqOf_storageDoc]
      exact Draft.get_seq _
    · rw [Draft.seqOf_storageDoc]
      exact Draft.get_seq _
  distinct := by
    simp only [sampleLog, List.map_cons, List.map_nil, Draft.seqOf_storageDoc]
    decide

/-- The three are returned by their seqs, and from the first of them the other two. -/
theorem replay_complete_of_growing_log : ∃ client,
    exec step ⟨sampleLog, .seq 1, []⟩ sampleReplay = some client ∧
      client.page 5 = .ok [] ∧
      (client.returned.Pairwise fun first second => seqOf first < seqOf second) ∧
      (∀ doc, doc ∈ client.returned ↔ doc ∈ client.log ∧ 1 < seqOf doc) ∧
      (exec step ⟨sampleLog, .event "b", []⟩ sampleReplay).map
          (fun client => (client.returned, client.page 5)) =
        (exec step ⟨sampleLog, .seq (seqOf (sampleDraft 2 "b").storageDoc), []⟩
            sampleReplay).map
          fun client => (client.returned, client.page 5) := by
  obtain ⟨complete, fromEvent⟩ := replay_complete sampleLog_numbered 1
  have ran : (exec step ⟨sampleLog, .seq 1, []⟩ sampleReplay).map
      (fun client => (client.returned.map seqOf, (client.page 5).map List.length)) =
        some ([2, 4, 7], .ok 0) := by
    decide +kernel
  obtain ⟨client, reached, shape⟩ := Option.map_eq_some_iff.mp ran
  obtain ⟨served, whole, -⟩ := complete sampleReplay client reached
  obtain ⟨docs, page⟩ := served 5 (by decide)
  have empty : docs = [] := by
    have length := congrArg Prod.snd shape
    simp only [page] at length
    cases docs with
    | nil => rfl
    | cons => cases length
  subst empty
  obtain ⟨increasing, members⟩ := whole 5 (by decide) page
  refine ⟨client, reached, page, increasing, members, ?_⟩
  refine fromEvent (sampleDraft 2 "b").storageDoc ?_ "b" (Draft.get_eventId _) ?_
    sampleReplay 5
  · exact List.mem_cons_of_mem _ List.mem_cons_self
  · intro other member named
    simp only [sampleLog, List.mem_cons, List.not_mem_nil, or_false] at member
    rcases member with rfl | rfl
    · rw [Draft.get_eventId] at named
      exact absurd (Value.str.inj named) (by decide)
    · rfl

end ReplayClient

end OrderStream
