import OrderStream.Delivery.DashboardView

/-! The dashboard's pause button: which events can still come. -/

namespace OrderStream

open Transition

structure PausableSite where
  site : Site
  paused : Bool := false

inductive PausableAction where
  | site (action : SiteAction)
  | togglePause

/-- The listener of `change` returns at once. -/
def Dashboard.dismiss (dashboard : Dashboard) (rest : List Event) : Dashboard :=
  { dashboard with queue := rest }

namespace PausableSite

def receive (state : PausableSite) : Option Site :=
  if state.paused then
    match state.site.dashboard.phase, state.site.dashboard.queue with
    | .opened, _ :: rest =>
        some { state.site with dashboard := state.site.dashboard.dismiss rest }
    | _, _ => none
  else Site.step state.site .receive

def step (state : PausableSite) : PausableAction → Option PausableSite
  | .site .receive => state.receive.map fun site => { state with site }
  -- a page is applied whether or not the dashboard is paused
  | .site action => (Site.step state.site action).map fun site => { state with site }
  | .togglePause => some { state with paused := !state.paused }

inductive Step (state : PausableSite) : PausableAction → PausableSite → Prop where
  | moved {action : SiteAction} {site : Site} : Site.step state.site action = some site →
      Step state (.site action) { state with site }
  | dismissed {event : Event} {rest : List Event} : state.site.dashboard.phase = .opened →
      state.site.dashboard.queue = event :: rest →
        Step state (.site .receive)
          { state with
            site := { state.site with dashboard := state.site.dashboard.dismiss rest } }
  | toggled : Step state .togglePause { state with paused := !state.paused }

theorem step_cases {state next : PausableSite} {action : PausableAction}
    (stepped : step state action = some next) : Step state action next := by
  cases action with
  | togglePause =>
      cases stepped
      exact .toggled
  | site action =>
      cases action with
      | receive =>
          obtain ⟨site, moved, rfl⟩ := Option.map_eq_some_iff.mp stepped
          unfold receive at moved
          split at moved
          · split at moved
            · cases moved
              exact .dismissed ‹_› ‹_›
            · cases moved
          · exact .moved moved
      | _ =>
          obtain ⟨site, moved, rfl⟩ := Option.map_eq_some_iff.mp stepped
          exact .moved moved

end PausableSite

namespace Site

variable {site next : Site} {draft last : Draft}

/-- The event was applied, or is on its way over the stream, or in the page that the
dashboard would fetch now, and that page can be served. -/
def WithinReach (site : Site) (draft : Draft) : Prop :=
  site.Applied draft ∨ (∃ event ∈ site.dashboard.queue, event.eventId = draft.eventId) ∨
    ∃ last ∈ site.appended, site.dashboard.lastEventId = some last.eventId ∧
      draft ∈ (later last site.appended).take 2000 ∧
        ∀ other ∈ (later last site.appended).take 2000, other.storageDoc.isFinite = true

structure Pausable (site : Site) : Prop where
  replays : site.Replays
  queue : site.dashboard.phase ≠ .opened → site.dashboard.queue = []

theorem WithinReach.congr (reach : next.WithinReach draft)
    (applied : next.dashboard.applied = site.dashboard.applied)
    (queue : next.dashboard.queue ⊆ site.dashboard.queue)
    (lastEventId : next.dashboard.lastEventId = site.dashboard.lastEventId)
    (appended : next.appended = site.appended) : site.WithinReach draft := by
  rcases reach with shown | ⟨event, queued, named⟩ | ⟨last, member, named, paged⟩
  · left
    rw [Applied, ← applied]
    exact shown
  · exact Or.inr (Or.inl ⟨event, queue queued, named⟩)
  · rw [lastEventId] at named
    rw [appended] at member paged
    exact Or.inr (Or.inr ⟨last, member, named, paged⟩)

theorem Pausable.dismiss (pausable : site.Pausable) {event : Event} {rest : List Event}
    (opened : site.dashboard.phase = .opened)
    (queue : site.dashboard.queue = event :: rest) :
    Pausable { site with dashboard := site.dashboard.dismiss rest } := by
  obtain ⟨replays, -⟩ := pausable
  refine ⟨⟨?_, replays.known, replays.loading, replays.head, replays.silent, ?_, ?_⟩, ?_⟩
  · exact ⟨replays.sound.stored, replays.sound.ordered, replays.sound.distinct,
      replays.sound.bounded, replays.sound.taken⟩
  · intro lastEventId named
    obtain ⟨last, heard⟩ := replays.heard lastEventId named
    exact ⟨last, heard.congr rfl rfl rfl rfl⟩
  · intro _
    obtain ⟨old, waiting, queued⟩ := replays.waiting opened
    obtain ⟨first, more, rfl, rfl, rfl⟩ :=
      List.map_eq_cons_iff.mp (queued.queue.symm.trans queue)
    refine ⟨old ++ [first], more, ?_, rfl, ?_⟩
    · rw [queued.split, List.append_assoc]
      rfl
    · intro draft member
      exact queued.behind draft (List.mem_cons_of_mem _ member)
  · intro unopened
    exact absurd opened unopened

theorem Pausable.step (pausable : site.Pausable) {action : SiteAction}
    (stepped : step site action = some next) : next.Pausable := by
  refine ⟨replays_step pausable.replays stepped, ?_⟩
  intro unopened
  cases step_cases stepped with
  | took _ | failed => exact pausable.queue unopened
  | loaded loading => exact pausable.queue (by simp [loading])
  | fetched closed _ _ | reconnected closed _ => exact pausable.queue (by simp [closed])
  | stored _ _ =>
      rw [hear_phase] at unopened
      rw [Dashboard.hear, if_neg unopened]
      exact pausable.queue unopened
  | received opened _ => exact absurd opened unopened
  | connected _ | broke _ => rfl

end Site

namespace PausableSite

variable {state finish : PausableSite} {draft : Draft}

end PausableSite

end OrderStream
