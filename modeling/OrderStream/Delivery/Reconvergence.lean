import OrderStream.Delivery.SnapshotClient
import OrderStream.Watcher.Reconcile

/-! What the clients make of a reconciliation. -/

namespace OrderStream

open Transition
open Snapshot (applyEvent get?_foldl_applyEvent)
open AuditTrail (eventsOf)

namespace Reconciler

variable {orders old : Orders} {done : Reconciler} {events : List Draft}

theorem fitting_of_synthetic (exact' : Exact orders old done) :
    ∀ draft ∈ done.stored, draft.args.Fitting := by
  intro draft member
  obtain ⟨-, insert, doc, -, after⟩ := of_reconciliation (exact'.synthetic draft member)
  rw [AppendArgs.Fitting, insert, after]
  exact iff_of_false (fun equal => by cases equal) (fun equal => by cases equal)

theorem get?_view (exact' : Exact orders old done) (appended : events.Perm done.stored)
    (orderId : String) :
    (events.foldl (fun orders draft => applyEvent orders draft.event) old).get? orderId =
      if orderId ∈ addedIds orders old then
        (orders.get? orderId).map fun doc => canonicalDoc (Watcher.strip doc)
      else old.get? orderId := by
  rw [get?_foldl_applyEvent old fun draft member =>
    fitting_of_synthetic exact' draft (appended.mem_iff.mp member)]
  cases last : (eventsOf orderId events).getLast? with
  | none =>
      have silent : orderId ∉ addedIds orders old := by
        intro added
        obtain ⟨draft, member, own⟩ := List.mem_map.mp (exact'.once.mem_iff.mpr added)
        rw [List.getLast?_eq_none_iff] at last
        have mine : draft ∈ eventsOf orderId events :=
          List.mem_filter.mpr ⟨appended.mem_iff.mpr member, decide_eq_true own⟩
        rw [last] at mine
        cases mine
      rw [if_neg silent]
      rfl
  | some draft =>
      obtain ⟨member, own⟩ := List.mem_filter.mp (List.mem_of_getLast? last)
      have recorded := appended.mem_iff.mp member
      have own : draft.args.orderId = orderId := of_decide_eq_true own
      have added : orderId ∈ addedIds orders old := by
        rw [← own]
        exact exact'.once.mem_iff.mp (List.mem_map_of_mem recorded)
      obtain ⟨-, -, doc, stored, after⟩ := of_reconciliation (exact'.synthetic draft recorded)
      rw [own, PyDict.get?_mapValues] at stored
      obtain ⟨full, found, rfl⟩ := Option.map_eq_some_iff.mp stored
      rw [if_pos added, found, Option.map_some, Option.getD_some, Draft.canonAfter, after]
      rfl

/-- A client that had the orders of the old cache has those of the collection after the
synthetic events, in whatever order it applies them, iff no order of the old cache was
deleted or changed. -/
theorem reconverges_iff (orders old : Orders) {actions : List ReconcileAction}
    {done : Reconciler} (completes : Completes actions)
    (reached : exec (step orders) { cache := old } actions = some done)
    {events : List Draft} (appended : events.Perm done.stored) :
    (∀ orderId, Option.Rel Doc.Presents
        ((events.foldl (fun orders draft => applyEvent orders draft.event) old).get? orderId)
        (orders.get? orderId)) ↔
      ∀ orderId doc, old.get? orderId = some doc →
        ∃ stored, orders.get? orderId = some stored ∧ doc.Presents stored := by
  have exact' : Exact orders old done :=
    (exact_of_completes_iff (sound_start orders old) completes reached).mpr
      (List.Perm.refl _)
  simp only [get?_view exact' appended]
  constructor
  · intro presents orderId doc had
    have known : orderId ∉ addedIds orders old := by
      intro added
      have missing := (mem_addedIds.mp added).2
      rw [PyDict.contains, had] at missing
      cases missing
    have shown := presents orderId
    rw [if_neg known, had] at shown
    generalize orders.get? orderId = stored at shown ⊢
    cases shown with
    | some presented => exact ⟨_, rfl, presented⟩
  · intro kept orderId
    split
    · rename_i added
      obtain ⟨doc, found⟩ := Option.isSome_iff_exists.mp (mem_addedIds.mp added).1
      rw [found]
      exact Option.Rel.some ⟨Watcher.strip doc, Or.inr rfl, (Watcher.strip_agrees doc).sameGets⟩
    · rename_i known
      cases had : old.get? orderId with
      | some doc =>
          obtain ⟨stored, found, presents⟩ := kept orderId doc had
          rw [found]
          exact Option.Rel.some presents
      | none =>
          have gone : orders.get? orderId = none := by
            by_contra there
            refine known (mem_addedIds.mpr ⟨Option.isSome_iff_ne_none.mpr there, ?_⟩)
            rw [PyDict.contains, had]
            rfl
          rw [gone]
          exact Option.Rel.none

def shippedOne : Orders := .ofList [("1", sampleOrder "shipped" 10)]

theorem missed_changes_are_not_told :
    ∃ done, Completes [.call, .read "1", .scanned [], .finish] ∧
      exec (step shippedOne) { cache := orderTwo } [.call, .read "1", .scanned [], .finish] =
        some done ∧
      ∀ orderId ∈ ["1", "2"], ¬Option.Rel Doc.Presents
        ((done.stored.foldl (fun orders draft => applyEvent orders draft.event)
          orderTwo).get? orderId) (shippedOne.get? orderId) := by
  have facts : (exec (step shippedOne) { cache := orderTwo }
      [.call, .read "1", .scanned [], .finish]).map storedIds = some [] := by
    decide +kernel
  obtain ⟨done, reached, stored⟩ := Option.map_eq_some_iff.mp facts
  have completes : Completes [.call, .read "1", .scanned [], .finish] := by
    refine ⟨[.read "1", .scanned []], rfl, ?_⟩
    intro action member
    simp only [List.mem_cons, List.not_mem_nil, or_false] at member
    rcases member with rfl | rfl
    · trivial
    · trivial
  refine ⟨done, completes, reached, ?_⟩
  rw [List.map_eq_nil_iff.mp stored]
  intro orderId either shown
  simp only [List.mem_cons, List.not_mem_nil, or_false] at either
  rcases either with rfl | rfl
  · cases shown with
    | some presents =>
        have status : (sampleOrder "shipped" 10).get "status" = .str "shipped" := rfl
        have same : Value.str "pending" = .str "shipped" := presents.get_str (by decide) status
        exact absurd (Value.str.inj same) (by decide)
  · cases shown

theorem reconverges_of_new_order :
    ∃ done, exec (step orderTwo) { cache := orderOne } (retried ["1", "2"] "2") = some done ∧
      ∀ orderId, Option.Rel Doc.Presents
        ((done.stored.foldl (fun orders draft => applyEvent orders draft.event)
          orderOne).get? orderId) (orderTwo.get? orderId) := by
  have facts : (exec (step orderTwo) { cache := orderOne }
      (retried ["1", "2"] "2")).map storedIds = some ["2"] := by
    decide +kernel
  obtain ⟨done, reached, -⟩ := Option.map_eq_some_iff.mp facts
  refine ⟨done, reached, ?_⟩
  apply (reconverges_iff orderTwo orderOne (completes_retried _ _) reached
    (List.Perm.refl _)).mpr
  intro orderId doc had
  have only : orderId = "1" := by
    have member : orderId ∈ orderOne.keys := PyDict.mem_keys_iff.mpr ⟨doc, had⟩
    exact List.mem_singleton.mp member
  subst only
  cases had
  exact ⟨_, rfl, _, Or.inl rfl, fun field _ => .refl _⟩

end Reconciler

end OrderStream
